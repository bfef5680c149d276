import Formulary.Proofs.Delimiter.Fit
import Mathlib.Data.Bool.AllAny

/-!
# Sized delimiters stay as they are

A text is `Settled` when in each of its groups around a fraction every parenthesis that opens
follows `\left` and no pipe has a side left to take.

* `size_eq_self_of_settled`: sizing does not change a settled text;
* `settled_size`: sizing settles a text, unless only the first pair of pipes is sized;
* `size_size`: sizing twice is sizing once, with the same exception.

The second statement compares the cut of the written text with the cut of the text itself. The
commands are neutral marks, so the groups are the same (`cut_grown`), except that the command of an
opening parenthesis stands in the loose stretch before its group.
-/

namespace Formulary.Delimiter

/-- Nothing is left to be sized in a group. -/
structure IsSized (pipes : PipeSizing) (marked : List Mark) : Prop where
  opening : ∀ mark ∈ marked, mark.isBare '(' → follows mark "left".toList
  pipe : ∀ passed, ∀ side ∈ pipeSides pipes passed (pipeDepths 0 marked), side = none

/-- Nothing is left to be sized in the groups of a list of chunks. -/
def SettledChunks (pipes : PipeSizing) (pieces : List Chunk) : Prop :=
  ∀ marked, .group marked ∈ pieces → hasFraction marked → IsSized pipes marked

/-- Nothing is left to be sized in the groups of a text. -/
def Settled (pipes : PipeSizing) (text : Text) : Prop := SettledChunks pipes (chunks text)

/-! ## A settled text is not changed -/

theorem resize_eq_plainText {opened : List Bool} {sides : List (Option Side)} {marked : List Mark}
    (hOpening : ∀ mark ∈ marked, mark.isBare '(' → follows mark "left".toList)
    (hOpened : ∀ fresh ∈ opened, fresh = false) (hSides : ∀ side ∈ sides, side = none) :
    resize opened sides marked = plainText marked := by
  induction marked generalizing opened sides with
  | nil => rfl
  | cons mark rest ih =>
    have hRest : ∀ other ∈ rest, other.isBare '(' → follows other "left".toList :=
      fun other hOther => hOpening other (List.mem_cons_of_mem _ hOther)
    have hHead : opened.head?.getD false = false := by
      cases opened with
      | nil => rfl
      | cons fresh _ => exact hOpened fresh List.mem_cons_self
    have hSide : sides.head?.getD none = none := by
      cases sides with
      | nil => rfl
      | cons side _ => exact hSides side List.mem_cons_self
    have hTail : ∀ fresh ∈ opened.tail, fresh = false :=
      fun fresh hFresh => hOpened fresh (List.mem_of_mem_tail hFresh)
    have hSidesTail : ∀ side ∈ sides.tail, side = none :=
      fun side hMem => hSides side (List.mem_of_mem_tail hMem)
    simp only [resize, plainText, List.map_cons]
    split
    · rename_i hBare
      have hFollows := hOpening mark List.mem_cons_self hBare
      have hChar : mark.char = '(' := by simp_all [Mark.isBare]
      have hOpenedHere : ∀ fresh ∈ false :: opened, fresh = false := by simpa using hOpened
      simp only [hFollows, Bool.not_true, Bool.false_eq_true, if_false]
      rw [ih hRest hOpenedHere hSides, hChar]
      rfl
    · split
      · rename_i hBare
        have hChar : mark.char = ')' := by simp_all [Mark.isBare]
        simp only [hHead, Bool.false_and, Bool.false_eq_true, if_false]
        rw [ih hRest hTail hSides, hChar]
        rfl
      · split
        · rename_i hPipe
          have hChar : mark.char = '|' := by simp_all [isLoosePipe, Mark.isBare]
          simp only [hSide]
          rw [ih hRest hOpened hSidesTail, hChar]
          rfl
        · rw [ih hRest hOpened hSides]
          rfl

theorem sizeChunks_eq_self {pipes : PipeSizing} {pieces : List Chunk}
    (h : SettledChunks pipes pieces) (passed : Nat) :
    sizeChunks pipes passed pieces = plainText (pieces.flatMap Chunk.marks) := by
  induction pieces generalizing passed with
  | nil => rfl
  | cons chunk rest ih =>
    have hRest : SettledChunks pipes rest :=
      fun marked hMem => h marked (List.mem_cons_of_mem _ hMem)
    cases chunk with
    | loose marked => simp [sizeChunks, ih hRest, Chunk.marks, plainText]
    | group marked =>
      simp only [sizeChunks]
      split
      · rename_i hFraction
        obtain ⟨hOpening, hPipe⟩ := h marked List.mem_cons_self hFraction
        rw [resize_eq_plainText hOpening (by simp) (hPipe passed), ih hRest]
        simp [Chunk.marks, plainText]
      · simp [ih hRest, Chunk.marks, plainText]

theorem size_eq_self_of_settled {pipes : PipeSizing} {text : Text} (h : Settled pipes text) :
    size pipes text = text := by
  rw [size, sizeChunks_eq_self h, (chunks_cut text).flatten, plainText_marks]

/-! ## The cut of a written text -/

/-- No mark of a command is a delimiter. -/
theorem not_isBare_of_mem_added {fitted : Fitted} {mark : Mark} (h : mark ∈ fitted.added) {c : Char}
    (hc : isDelimiter c) : mark.isBare c = false := by
  have hNone : ∀ side : Side, ∀ d ∈ side.command, isDelimiter d = false := by
    intro side
    refine List.all_iff_forall_prop.mp ?_
    cases side <;> decide
  obtain ⟨first, side⟩ := fitted
  cases side with
  | none => cases h
  | some side =>
    have hMem : mark.char ∈ side.command := char_mem_of_mem_marksFrom h
    have hNe : mark.char ≠ c := by
      rintro rfl
      rw [hNone side _ hMem] at hc
      cases hc
    simp [Mark.isBare, hNe]

theorem isNeutral_of_mem_added {fitted : Fitted} :
    ∀ mark ∈ fitted.added, IsNeutral mark :=
  fun _ h => ⟨not_isBare_of_mem_added h rfl, not_isBare_of_mem_added h rfl⟩

theorem isBare_kept {fitted : Fitted} (h : fitted.IsProper) (c : Char) :
    fitted.kept.isBare c = fitted.mark.isBare c := by
  obtain ⟨mark, side⟩ := fitted
  cases side with
  | none => rfl
  | some side =>
    obtain ⟨-, hBare⟩ := h side rfl
    have hBare : mark.escaped = false := hBare
    simp only [Mark.isBare, hBare]
    rfl

theorem depthThrough_grown {fitted : List Fitted} (h : ∀ one ∈ fitted, one.IsProper)
    (depth : Nat) :
    depthThrough depth (fitted.flatMap Fitted.grown) =
      depthThrough depth (fitted.map Fitted.mark) := by
  induction fitted generalizing depth with
  | nil => rfl
  | cons first rest ih =>
    have hRest := ih fun mark hMark => h mark (List.mem_cons_of_mem _ hMark)
    have hKept := isBare_kept (h first List.mem_cons_self)
    rw [List.flatMap_cons, Fitted.grown, List.append_assoc, depthThrough_append,
      depthThrough_neutral isNeutral_of_mem_added, Option.bind_some]
    simp only [List.cons_append, List.nil_append, List.map_cons, depthThrough, hKept, hRest]

/-- A group stays one, up to the command before its first mark. -/
theorem isGroup_grown {first : Fitted} {rest : List Fitted}
    (hProper : ∀ one ∈ first :: rest, one.IsProper)
    (hGroup : IsGroup ((first :: rest).map Fitted.mark)) :
    IsGroup (first.kept :: rest.flatMap Fitted.grown) := by
  obtain ⟨opening, body, closing, hEq, hOpen, hBody, hClose⟩ := hGroup
  obtain ⟨rfl, hRest⟩ := List.cons.inj hEq
  obtain ⟨inner, last, rfl, rfl, hLast⟩ := List.map_eq_append_iff.mp hRest
  obtain ⟨final, rfl, rfl⟩ := List.map_eq_singleton_iff.mp hLast
  have hInner : ∀ one ∈ inner, one.IsProper := fun mark hMark =>
    hProper mark (by simp [hMark])
  refine ⟨first.kept, inner.flatMap Fitted.grown ++ final.added, final.kept,
    by simp [Fitted.grown], ?_, ?_, ?_⟩
  · rw [isBare_kept (hProper first List.mem_cons_self)]
    exact hOpen
  · rw [Balanced, depthThrough_append, depthThrough_grown hInner, hBody, Option.bind_some]
    exact depthThrough_neutral isNeutral_of_mem_added 0
  · rw [isBare_kept (hProper final (by simp))]
    exact hClose

/-! ## Nothing is left to be sized -/

/-- A parenthesis that opens is sized unless it was. -/
theorem side_of_isBare_open {opened : List Bool} {sides : List (Option Side)} {marked : List Mark} :
    ∀ one ∈ fit opened sides marked, one.mark.isBare '(' →
      one.side = if follows one.mark "left".toList then none else some .left :=
  forall_mem_fit fun _ _ _ hOpen => nextSide_of_open hOpen

theorem follows_left_of_mem_grown {opened : List Bool} {sides : List (Option Side)}
    {marked : List Mark} {one : Fitted} (hOne : one ∈ fit opened sides marked) {mark : Mark}
    (hMark : mark ∈ one.grown) (hOpen : mark.isBare '(') : follows mark "left".toList := by
  rcases List.mem_append.mp hMark with hAdded | hKept
  · rw [not_isBare_of_mem_added hAdded rfl] at hOpen
    cases hOpen
  · rw [List.mem_singleton.mp hKept] at hOpen ⊢
    rw [isBare_kept (isProper_of_mem_fit one hOne)] at hOpen
    have hSide := side_of_isBare_open one hOne hOpen
    obtain ⟨mark, side⟩ := one
    by_cases hFollows : follows mark "left".toList
    · obtain rfl : side = none := hSide.trans (if_pos hFollows)
      exact hFollows
    · obtain rfl : side = some .left := hSide.trans (if_neg hFollows)
      rfl

/-- The depths of the pipes that were given no side. -/
def unsided (depths : List Nat) (sides : List (Option Side)) : List Nat :=
  (depths.zip sides).filterMap fun (depth, side) => if side.isNone then some depth else none

theorem pipeDepths_append_neutral {before : List Mark} (hNeutral : ∀ mark ∈ before, IsNeutral mark)
    (hLoose : ∀ mark ∈ before, mark.isBare '|' = false) (depth : Nat) (rest : List Mark) :
    pipeDepths depth (before ++ rest) = pipeDepths depth rest := by
  induction before with
  | nil => rfl
  | cons mark before ih =>
    obtain ⟨hOpen, hClose⟩ := hNeutral mark List.mem_cons_self
    have hPipe : isLoosePipe mark = false := by
      simp [isLoosePipe, hLoose mark List.mem_cons_self]
    simp only [List.cons_append, pipeDepths, hOpen, hClose, hPipe, Bool.false_eq_true, if_false]
    exact ih (fun other hOther => hNeutral other (List.mem_cons_of_mem _ hOther))
      fun other hOther => hLoose other (List.mem_cons_of_mem _ hOther)

theorem pipeDepths_added (one : Fitted) (depth : Nat) (rest : List Mark) :
    pipeDepths depth (one.added ++ rest) = pipeDepths depth rest :=
  pipeDepths_append_neutral isNeutral_of_mem_added
    (fun _ h => not_isBare_of_mem_added h rfl) depth rest

theorem pipeDepths_cons_grown (one : Fitted) (rest : List Fitted) (depth : Nat) :
    pipeDepths depth ((one :: rest).flatMap Fitted.grown) =
      pipeDepths depth (one.kept :: rest.flatMap Fitted.grown) := by
  rw [List.flatMap_cons, Fitted.grown, List.append_assoc, pipeDepths_added]
  rfl

theorem isLoosePipe_kept {mark : Mark} (side : Side) :
    isLoosePipe (Fitted.kept ⟨mark, some side⟩) = false := by
  cases side <;> simp [isLoosePipe, Fitted.kept, follows, Side.name, sizingCommands]

/-- Afterwards the loose pipes of a group are those that were given no side. -/
theorem pipeDepths_grown {opened : List Bool} {sides : List (Option Side)} {depth : Nat}
    {marked : List Mark} (hLength : sides.length = (pipeDepths depth marked).length) :
    pipeDepths depth ((fit opened sides marked).flatMap Fitted.grown) =
      unsided (pipeDepths depth marked) sides := by
  induction marked generalizing opened sides depth with
  | nil => rfl
  | cons mark rest ih =>
    have hKept := isBare_kept (isProper_nextSide opened sides mark)
    have hDepth : depthAfter depth (Fitted.kept ⟨mark, nextSide opened sides mark⟩) =
        depthAfter depth mark := by
      rw [depthAfter, hKept, hKept]
      rfl
    rw [pipeDepths_cons] at hLength
    rw [fit_cons, pipeDepths_cons_grown, pipeDepths_cons, hDepth, pipeDepths_cons]
    cases hPipe : isLoosePipe mark with
    | false =>
      have hNot : isLoosePipe (Fitted.kept ⟨mark, nextSide opened sides mark⟩) = false := by
        cases nextSide opened sides mark with
        | none => exact hPipe
        | some side => exact isLoosePipe_kept side
      rw [hPipe] at hLength
      rw [hNot]
      exact ih hLength
    | true =>
      rw [hPipe] at hLength
      rw [nextSide_of_isLoosePipe hPipe]
      cases sides with
      | nil => cases hLength
      | cons side sides =>
        have hRest := @ih (openedAfter opened mark) sides _ (Nat.succ.inj hLength)
        rw [if_pos rfl, List.tail_cons, hRest]
        cases side with
        | none => simp [Fitted.kept, hPipe, unsided]
        | some side => simp [isLoosePipe_kept, unsided]

/-! ## The sides of pipes -/

theorem length_scopedSides (all passed depths : List Nat) :
    (scopedSides all passed depths).length = depths.length := by
  induction depths generalizing passed with
  | nil => rfl
  | cons depth rest ih => simp [scopedSides, ih]

theorem length_pipeSides (pipes : PipeSizing) (passed : Nat) (depths : List Nat) :
    (pipeSides pipes passed depths).length = depths.length := by
  match pipes with
  | .scoped => exact length_scopedSides depths [] depths
  | .firstPair => simp [pipeSides, firstPairSides]
  | .off => simp [pipeSides]

/-- Unless only the first pair of pipes is sized, the pipes of earlier groups do not matter. -/
theorem pipeSides_passed {pipes : PipeSizing} (hPipes : pipes ≠ .firstPair) (passed : Nat)
    (depths : List Nat) : pipeSides pipes passed depths = pipeSides pipes 0 depths := by
  match pipes with
  | .scoped => rfl
  | .firstPair => exact absurd rfl hPipes
  | .off => rfl

/-- A pipe has no side exactly when the pipes of its depth are odd in number. -/
theorem unsided_scopedSides (all passed depths : List Nat) :
    unsided depths (scopedSides all passed depths) =
      depths.filter fun depth => all.count depth % 2 ≠ 0 := by
  induction depths generalizing passed with
  | nil => rfl
  | cons depth rest ih =>
    have hRest := ih (depth :: passed)
    simp only [unsided] at hRest
    simp only [scopedSides, unsided, List.zip_cons_cons, List.filterMap_cons, List.filter_cons,
      hRest]
    by_cases hEven : all.count depth % 2 = 0 <;> simp [hEven]

theorem scopedSides_eq_none {all passed depths : List Nat}
    (hOdd : ∀ depth ∈ depths, all.count depth % 2 ≠ 0) :
    ∀ side ∈ scopedSides all passed depths, side = none := by
  induction depths generalizing passed with
  | nil => simp [scopedSides]
  | cons depth rest ih =>
    intro side hSide
    rcases List.mem_cons.mp hSide with rfl | hRest
    · exact if_neg (hOdd depth List.mem_cons_self)
    · exact ih (fun other hOther => hOdd other (List.mem_cons_of_mem _ hOther)) side hRest

/-- The pipes that were given no side are given none again, since they are still odd in number at
their depth. -/
theorem pipeSides_unsided {pipes : PipeSizing} (hPipes : pipes ≠ .firstPair) (passed again : Nat)
    (depths : List Nat) :
    ∀ side ∈ pipeSides pipes again (unsided depths (pipeSides pipes passed depths)),
      side = none := by
  match pipes with
  | .firstPair => exact absurd rfl hPipes
  | .off => simp [pipeSides]
  | .scoped =>
    simp only [pipeSides, unsided_scopedSides]
    apply scopedSides_eq_none
    intro depth hDepth
    have hOdd := (List.mem_filter.mp hDepth).2
    have hCount : (depths.filter fun other => depths.count other % 2 ≠ 0).count depth =
        depths.count depth := List.count_filter hOdd
    rw [hCount]
    simpa using hOdd

/-! ## Sizing settles -/

@[simp] theorem flatMap_grown_unfitted (marked : List Mark) :
    (unfitted marked).flatMap Fitted.grown = marked := by
  induction marked with
  | nil => rfl
  | cons mark rest ih => simpa [unfitted] using ih

theorem isSized_grown {pipes : PipeSizing} (hPipes : pipes ≠ .firstPair) {passed : Nat}
    {marked : List Mark} {first : Fitted} {rest : List Fitted}
    (hFit : fit [] (pipeSides pipes passed (pipeDepths 0 marked)) marked = first :: rest) :
    IsSized pipes (first.kept :: rest.flatMap Fitted.grown) where
  opening := by
    intro mark hMark
    obtain ⟨one, hOne, hGrown⟩ : ∃ one ∈ first :: rest, mark ∈ one.grown := by
      rcases List.mem_cons.mp hMark with rfl | hRest
      · exact ⟨first, List.mem_cons_self, by simp [Fitted.grown]⟩
      · obtain ⟨one, hOne, hGrown⟩ := List.mem_flatMap.mp hRest
        exact ⟨one, List.mem_cons_of_mem _ hOne, hGrown⟩
    exact follows_left_of_mem_grown (hFit ▸ hOne) hGrown
  pipe := by
    intro again
    have hDepths : pipeDepths 0 (first.kept :: rest.flatMap Fitted.grown) =
        unsided (pipeDepths 0 marked) (pipeSides pipes passed (pipeDepths 0 marked)) := by
      rw [← @pipeDepths_grown [] _ 0 _ (length_pipeSides pipes passed _), hFit,
        pipeDepths_cons_grown]
    rw [hDepths]
    exact pipeSides_unsided hPipes passed again (pipeDepths 0 marked)

theorem SettledChunks.cons_group {pipes : PipeSizing} {before group : List Mark}
    {pieces : List Chunk} (hRest : SettledChunks pipes pieces)
    (hGroup : hasFraction group → IsSized pipes group) :
    SettledChunks pipes (.loose before :: .group group :: pieces) := by
  intro marked hMem hFraction
  rcases List.mem_cons.mp hMem with hLoose | hMem
  · cases hLoose
  · rcases List.mem_cons.mp hMem with hHere | hLater
    · cases hHere
      exact hGroup hFraction
    · exact hRest marked hLater hFraction

/-- The cut of a text after its delimiters are sized. -/
theorem cut_grown {pipes : PipeSizing} (hPipes : pipes ≠ .firstPair) {marked : List Mark}
    {pieces : List Chunk} (hCut : Cut marked pieces) (passed : Nat) :
    ∃ grown, Cut ((fitChunks pipes passed pieces).flatMap Fitted.grown) grown ∧
      SettledChunks pipes grown := by
  induction hCut generalizing passed with
  | @loose marked hLoose =>
    exact ⟨[.loose marked], by simpa [fitChunks] using Cut.loose hLoose,
      by simp [SettledChunks]⟩
  | @unclosed before opening after hLoose hOpen hAfter =>
    exact ⟨[.loose before, .loose (opening :: after)],
      by simpa [fitChunks] using Cut.unclosed hLoose hOpen hAfter, by simp [SettledChunks]⟩
  | @group before group rest pieces hLoose hGroup _ ih =>
    simp only [fitChunks]
    split
    · obtain ⟨grown, hGrown, hSettled⟩ := ih (passed + (pipeDepths 0 group).length)
      generalize hFit : fit [] (pipeSides pipes passed (pipeDepths 0 group)) group = fitted
      have hMarks : fitted.map Fitted.mark = group := hFit ▸ map_mark_fit _ _ _
      have hProper : ∀ one ∈ fitted, one.IsProper := hFit ▸ isProper_of_mem_fit
      cases fitted with
      | nil =>
        obtain ⟨opening, body, closing, rfl, -⟩ := hGroup
        cases hMarks
      | cons first fitted =>
        have hBefore : ∀ mark ∈ before ++ first.added, mark.isBare '(' = false := by
          intro mark hMark
          rcases List.mem_append.mp hMark with hOld | hAdded
          · exact hLoose mark hOld
          · exact not_isBare_of_mem_added hAdded rfl
        refine ⟨.loose (before ++ first.added) ::
          .group (first.kept :: fitted.flatMap Fitted.grown) :: grown, ?_, ?_⟩
        · have hCut := Cut.group hBefore (isGroup_grown hProper (hMarks.symm ▸ hGroup)) hGrown
          simpa [Fitted.grown] using hCut
        · exact hSettled.cons_group fun _ => isSized_grown hPipes hFit
    · rename_i hFraction
      obtain ⟨grown, hGrown, hSettled⟩ := ih passed
      refine ⟨.loose before :: .group group :: grown,
        by simpa using Cut.group hLoose hGroup hGrown, ?_⟩
      exact hSettled.cons_group fun hHas => absurd hHas hFraction

/-- Sizing settles a text, unless only the first pair of pipes is sized. -/
theorem settled_size {pipes : PipeSizing} (hPipes : pipes ≠ .firstPair) (text : Text) :
    Settled pipes (size pipes text) := by
  obtain ⟨grown, hCut, hSettled⟩ := cut_grown hPipes (chunks_cut text) 0
  have hScan : chunks (size pipes text) = grown := by
    rw [chunks, marks_size]
    exact chunksFrom_eq_of_cut hCut
  rw [Settled, hScan]
  exact hSettled

/-- Unless only the first pair of pipes is sized, the settled texts are the ones sizing keeps. -/
theorem size_eq_self_iff {pipes : PipeSizing} (hPipes : pipes ≠ .firstPair) {text : Text} :
    size pipes text = text ↔ Settled pipes text := by
  constructor
  · intro hKeeps
    exact hKeeps ▸ settled_size hPipes text
  · exact size_eq_self_of_settled

/-- Sizing the delimiters of a sized text changes nothing. -/
theorem size_size {pipes : PipeSizing} (hPipes : pipes ≠ .firstPair) (text : Text) :
    size pipes (size pipes text) = size pipes text := by
  rw [size_eq_self_iff hPipes]
  exact settled_size hPipes text

/-- Three pipes of one depth, a pipe behind a row break, a parenthesis sized on its left only,
`left` as plain letters, and a parenthesis that is never closed. -/
def unevenGroups : Text :=
  "(|\\frac12|\\\\|)+(\\left(|x|\\frac34)left(y)\\\\)+\\right)((\\frac56|z|".toList

theorem size_size_unevenGroups :
    PipeSizing.scoped ≠ .firstPair ∧
      size .scoped (size .scoped unevenGroups) =
        ("\\left(|\\frac12|\\\\|\\right)+\\left(\\left(\\left|x\\right|\\frac34)".toList ++
          "left\\left(y\\right)\\\\\\right)+\\right)((\\frac56|z|".toList) := by
  refine ⟨by decide, ?_⟩
  rw [size_size (by decide)]
  decide +kernel

end Formulary.Delimiter
