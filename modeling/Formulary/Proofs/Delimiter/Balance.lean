import Formulary.Proofs.Delimiter.Candidate
import Formulary.Proofs.Markup.Word
import Mathlib.Data.Finset.Card
import Mathlib.Data.List.ReduceOption

/-!
# Left and right in turn

`\left` opens a pair of delimiters and `\right` closes it. When a text has neither, `size` writes as
many of both, and no more of the second than of the first up to any point. There is one exception:
when only the first pair of pipes is sized, and there is just one candidate, it stays on its own
(`isPaired_size`).

`pairsBehind` counts the pairs that are open behind some sides.

* Within a group the parentheses that are open are all sized, and so are some pipes. The pairs open
  behind a mark are those of the parentheses and those of the pipes together (`pairsBehind_fit`).
* The pairs of the pipes are followed by themselves. When pipes are scoped, they are the depths at
  which an uneven number of pipes has been passed, of those where the number is even in the end
  (`openDepths`).
-/

namespace Formulary.Delimiter

/-! ## Pairs of sides -/

/-- The left side opens a pair, and the right side closes it. -/
def Side.sign : Side → Sign Unit
  | .left => .opening ()
  | .right => .closing ()

/-- The number of pairs open behind some sides, given the number before them. There is none when
they close one that was not open. -/
def pairsBehind (pairs : Nat) (sides : List (Option Side)) : Option Nat :=
  level () pairs (sides.reduceOption.map Side.sign)

section Pairs

variable {pairs behind : Nat} {sides : List (Option Side)}

@[simp] theorem pairsBehind_none (pairs : Nat) (sides : List (Option Side)) :
    pairsBehind pairs (none :: sides) = pairsBehind pairs sides := rfl

@[simp] theorem pairsBehind_left (pairs : Nat) (sides : List (Option Side)) :
    pairsBehind pairs (some .left :: sides) = pairsBehind (pairs + 1) sides := rfl

@[simp] theorem pairsBehind_right (pairs : Nat) (sides : List (Option Side)) :
    pairsBehind (pairs + 1) (some .right :: sides) = pairsBehind pairs sides := rfl

theorem pairsBehind_append (pairs : Nat) (first second : List (Option Side)) :
    pairsBehind pairs (first ++ second) =
      (pairsBehind pairs first).bind fun between => pairsBehind between second := by
  rw [pairsBehind, List.reduceOption_append, List.map_append, level_append]
  rfl

theorem pairsBehind_of_none (h : ∀ side ∈ sides, side = none) :
    pairsBehind pairs sides = some pairs := by
  induction sides with
  | nil => rfl
  | cons side rest ih =>
    obtain ⟨rfl, hRest⟩ := List.forall_mem_cons.mp h
    exact ih hRest

/-- One more side does the same to the pairs of other brackets and these together. -/
theorem exists_of_pairsBehind_cons {side : Option Side}
    (h : pairsBehind pairs (side :: sides) = some behind) :
    ∃ next, pairsBehind next sides = some behind ∧ ∀ more others,
      pairsBehind (more + pairs) (side :: others) = pairsBehind (more + next) others := by
  cases side with
  | none => exact ⟨pairs, h, fun _ _ => rfl⟩
  | some side =>
    cases side with
    | left => exact ⟨pairs + 1, h, fun _ _ => rfl⟩
    | right =>
      cases pairs with
      | zero => cases h
      | succ outer => exact ⟨outer, h, fun _ _ => rfl⟩

end Pairs

/-! ## Sides among control words -/

/-- The side that a control word takes. -/
def side? (word : Text) : Option Side :=
  if word = Side.left.name then some .left
  else if word = Side.right.name then some .right
  else none

/-- Of these control words, no more close pairs of delimiters than open them, up to any of them, and
as many in all. -/
structure IsPaired (words : List Text) : Prop where
  front : ∀ front, front <+: words → front.count Side.right.name ≤ front.count Side.left.name
  whole : words.count Side.right.name = words.count Side.left.name

theorem side?_eq_some {word : Text} {side : Side} : side? word = some side ↔ word = side.name := by
  rw [side?]
  constructor
  · intro h
    split at h
    · cases h
      assumption
    · split at h
      · cases h
        assumption
      · cases h
  · rintro rfl
    cases side <;> rfl

theorem count_sign (side : Side) (words : List Text) :
    ((words.map side?).reduceOption.map Side.sign).count side.sign = words.count side.name := by
  induction words with
  | nil => rfl
  | cons word rest ih =>
    rw [List.map_cons, List.count_cons, ← ih]
    cases hSide : side? word with
    | none =>
      have hNe : word ≠ side.name := by
        intro hName
        rw [side?_eq_some.mpr hName] at hSide
        cases hSide
      rw [List.reduceOption_cons_of_none, if_neg (by simpa using hNe)]
      rfl
    | some other =>
      obtain rfl := side?_eq_some.mp hSide
      rw [List.reduceOption_cons_of_some, List.map_cons, List.count_cons]
      cases other <;> cases side <;> rfl

theorem side?_eq_none {word : Text} (h : ∀ side : Side, word ≠ side.name) : side? word = none := by
  rw [Option.eq_none_iff_forall_ne_some]
  exact fun side hSide => h side (side?_eq_some.mp hSide)

/-- When no pair is closed that was not open, words are paired exactly when none is left open. -/
theorem isPaired_iff {words : List Text} {behind : Nat}
    (h : pairsBehind 0 (words.map side?) = some behind) : IsPaired words ↔ behind = 0 := by
  have hCount : ∀ {front : List Text} {between : Nat},
      pairsBehind 0 (front.map side?) = some between →
        front.count Side.left.name = between + front.count Side.right.name := by
    intro front between hFront
    have hSides := level_count hFront
    change 0 + List.count Side.left.sign _ = between + List.count Side.right.sign _ at hSides
    rwa [count_sign, count_sign, Nat.zero_add] at hSides
  have hWhole := hCount h
  constructor
  · rintro ⟨-, hEqual⟩
    omega
  · rintro rfl
    refine ⟨?_, by omega⟩
    rintro front ⟨rest, rfl⟩
    rw [List.map_append, pairsBehind_append] at h
    obtain ⟨between, hBetween, -⟩ := Option.bind_eq_some_iff.mp h
    rw [hCount hBetween]
    apply Nat.le_add_left

/-! ## Pairs of pipes -/

/-- The depths at which an uneven number of pipes has been passed, of those at which there is an
even number of pipes. -/
def openDepths (all passed : List Nat) : Finset Nat :=
  passed.toFinset.filter fun depth => all.count depth % 2 = 0 ∧ passed.count depth % 2 = 1

section Depths

variable {all passed : List Nat} {depth other : Nat}

theorem mem_openDepths :
    other ∈ openDepths all passed ↔ all.count other % 2 = 0 ∧ passed.count other % 2 = 1 := by
  rw [openDepths, Finset.mem_filter, List.mem_toFinset, ← List.count_pos_iff]
  omega

theorem openDepths_self (depths : List Nat) : openDepths depths depths.reverse = ∅ := by
  rw [Finset.eq_empty_iff_forall_notMem]
  intro other h
  rw [mem_openDepths, List.count_reverse] at h
  omega

theorem mem_openDepths_cons : other ∈ openDepths all (depth :: passed) ↔
    all.count other % 2 = 0 ∧
      (passed.count other + if depth = other then 1 else 0) % 2 = 1 := by
  rw [mem_openDepths, List.count_cons]
  simp

/-- A pipe at a depth where no pair is open opens one. -/
theorem openDepths_cons_even (hAll : all.count depth % 2 = 0) (h : passed.count depth % 2 = 0) :
    (openDepths all (depth :: passed)).card = (openDepths all passed).card + 1 := by
  have hFresh : depth ∉ openDepths all passed := by
    rw [mem_openDepths]
    omega
  rw [← Finset.card_insert_of_notMem hFresh]
  congr 1
  ext other
  rw [Finset.mem_insert, mem_openDepths_cons, mem_openDepths]
  by_cases hSame : depth = other
  · subst hSame
    simp [hAll, Nat.add_mod, h]
  · simp [hSame, Ne.symm hSame]

/-- A pipe at a depth where a pair is open closes it. -/
theorem openDepths_cons_odd (hAll : all.count depth % 2 = 0) (h : passed.count depth % 2 = 1) :
    (openDepths all passed).card = (openDepths all (depth :: passed)).card + 1 := by
  have hOpen : depth ∈ openDepths all passed := mem_openDepths.mpr ⟨hAll, h⟩
  rw [← Finset.card_erase_add_one hOpen]
  congr 2
  ext other
  rw [Finset.mem_erase, mem_openDepths_cons, mem_openDepths]
  by_cases hSame : depth = other
  · subst hSame
    simp [Nat.add_mod, h]
  · simp [hSame, Ne.symm hSame]

/-- A pipe at a depth with an uneven number of pipes belongs to no pair. -/
theorem openDepths_cons_single (hAll : all.count depth % 2 ≠ 0) :
    openDepths all (depth :: passed) = openDepths all passed := by
  ext other
  rw [mem_openDepths_cons, mem_openDepths]
  by_cases hSame : depth = other
  · subst hSame
    simp [hAll]
  · simp [hSame]

end Depths

theorem pairsBehind_scopedSides (all passed depths : List Nat) :
    pairsBehind (openDepths all passed).card (scopedSides all passed depths) =
      some (openDepths all (depths.reverse ++ passed)).card := by
  induction depths generalizing passed with
  | nil => rfl
  | cons depth rest ih =>
    have hRest := ih (depth :: passed)
    rw [scopedSides, List.reverse_cons, List.append_assoc, List.singleton_append]
    by_cases hAll : all.count depth % 2 = 0
    · rw [if_pos hAll]
      by_cases hPassed : passed.count depth % 2 = 0
      · rw [if_pos hPassed, pairsBehind_left, ← openDepths_cons_even hAll hPassed, hRest]
      · have hOdd : passed.count depth % 2 = 1 := by omega
        rw [if_neg hPassed, openDepths_cons_odd hAll hOdd, pairsBehind_right, hRest]
    · rw [if_neg hAll, pairsBehind_none, ← openDepths_cons_single hAll, hRest]

/-- The number of pairs of pipes that are open behind a group, given the number of pipes in the
groups up to there. Only the first pair of a text goes on from one group to the next. -/
def openPipes (pipes : PipeSizing) (passed : Nat) : Nat :=
  match pipes with
  | .firstPair => if passed = 1 then 1 else 0
  | .scoped | .off => 0

theorem pairsBehind_firstPairSides (passed count : Nat) :
    pairsBehind (openPipes .firstPair passed) (firstPairSides passed count) =
      some (openPipes .firstPair (passed + count)) := by
  induction count generalizing passed with
  | zero => rfl
  | succ count ih =>
    have hRest := ih (passed + 1)
    rw [Nat.add_right_comm, Nat.add_assoc] at hRest
    rw [← hRest]
    rcases passed with _ | _ | passed <;> rfl

/-- The pipes of a group leave the pairs open that are to go on. -/
theorem pairsBehind_pipeSides (pipes : PipeSizing) (passed : Nat) (depths : List Nat) :
    pairsBehind (openPipes pipes passed) (pipeSides pipes passed depths) =
      some (openPipes pipes (passed + depths.length)) := by
  match pipes with
  | .scoped =>
    have hSides := pairsBehind_scopedSides depths [] depths
    rw [List.append_nil, openDepths_self] at hSides
    exact hSides
  | .firstPair => exact pairsBehind_firstPairSides passed depths.length
  | .off => exact pairsBehind_of_none (by simp [pipeSides])

/-! ## Pairs of a group -/

/-- No delimiter of a stretch has a side before it is sized. -/
def IsUnsided (marked : List Mark) : Prop :=
  ∀ mark ∈ marked, isDelimiter mark.char → ∀ side : Side, follows mark side.name = false

/-- Behind a stretch of a group the pairs are open that its parentheses leave open, and those that
its pipes leave open. -/
theorem pairsBehind_fit {depth behind pending left : Nat} {sides : List (Option Side)}
    {marked : List Mark} (hUnsided : IsUnsided marked)
    (hDepth : depthThrough depth marked = some behind)
    (hLength : sides.length = marked.countP isLoosePipe)
    (hSides : pairsBehind pending sides = some left) :
    pairsBehind (depth + pending)
      ((fit (List.replicate depth true) sides marked).map Fitted.side) = some (behind + left) := by
  induction marked generalizing depth pending sides with
  | nil =>
    obtain rfl := List.length_eq_zero_iff.mp hLength
    cases hDepth
    cases hSides
    rfl
  | cons mark rest ih =>
    obtain ⟨hMark, hRest⟩ := List.forall_mem_cons.mp hUnsided
    have hBare : ∀ {c : Char}, mark.isBare c → isDelimiter c → ∀ side : Side,
        follows mark side.name = false :=
      fun hc hDelimiter side => hMark (isProper_of_isBare hc hDelimiter (some side) side rfl).1 side
    rw [List.countP_cons] at hLength
    rw [fit_cons, List.map_cons, openedAfter]
    simp only [depthThrough] at hDepth
    by_cases hOpen : mark.isBare '('
    · rw [if_pos hOpen] at hDepth
      rw [isLoosePipe_of_isBare hOpen (by decide)] at hLength ⊢
      have hLeft : follows mark "left".toList = false := hBare hOpen rfl .left
      rw [nextSide_of_open hOpen, if_pos hOpen, hLeft]
      change pairsBehind (depth + pending + 1) _ = _
      rw [Nat.add_right_comm]
      exact ih hRest hDepth hLength hSides
    · rw [if_neg hOpen] at hDepth ⊢
      by_cases hClose : mark.isBare ')'
      · rw [if_pos hClose] at hDepth
        rw [isLoosePipe_of_isBare hClose (by decide)] at hLength ⊢
        have hRight : follows mark "right".toList = false := hBare hClose rfl .right
        cases depth with
        | zero => cases hDepth
        | succ outer =>
          -- The parenthesis that is closed was sized, whatever the pipes since then have left open.
          rw [nextSide_of_close hClose, if_pos hClose, hRight, Nat.add_right_comm]
          exact ih hRest hDepth hLength hSides
      · rw [if_neg hClose] at hDepth ⊢
        cases hPipe : isLoosePipe mark with
        | false =>
          rw [hPipe] at hLength
          have hNeutral : IsNeutral mark :=
            ⟨Bool.eq_false_iff.mpr hOpen, Bool.eq_false_iff.mpr hClose⟩
          rw [nextSide_of_isNeutral hNeutral hPipe]
          exact ih hRest hDepth hLength hSides
        | true =>
          rw [hPipe] at hLength
          rw [nextSide_of_isLoosePipe hPipe]
          cases sides with
          | nil => cases hLength
          | cons side sides =>
            obtain ⟨next, hNext, hStep⟩ := exists_of_pairsBehind_cons hSides
            exact (hStep depth _).trans (ih hRest hDepth (Nat.succ.inj hLength) hNext)

theorem isUnsided_append {first second : List Mark} :
    IsUnsided (first ++ second) ↔ IsUnsided first ∧ IsUnsided second := List.forall_mem_append

/-- The groups of a text leave the pairs open that are to go on. -/
theorem pairsBehind_fitChunks (pipes : PipeSizing) {marked : List Mark} {pieces : List Chunk}
    (hCut : Cut marked pieces) (hUnsided : IsUnsided marked) (passed : Nat) :
    pairsBehind (openPipes pipes passed) ((fitChunks pipes passed pieces).map Fitted.side) =
      some (openPipes pipes (passed + pipeCount pieces)) := by
  have hLoose : ∀ (pairs : Nat) (loose : List Mark),
      pairsBehind pairs ((unfitted loose).map Fitted.side) = some pairs := by
    intro pairs loose
    refine pairsBehind_of_none fun side hSide => ?_
    obtain ⟨one, hOne, rfl⟩ := List.mem_map.mp hSide
    exact (mem_unfitted.mp hOne).2
  induction hCut generalizing passed with
  | loose _ =>
    rw [fitChunks, fitChunks, List.append_nil]
    exact hLoose _ _
  | unclosed _ _ _ =>
    rw [fitChunks, fitChunks, fitChunks, List.append_nil, List.map_append, pairsBehind_append,
      hLoose, Option.bind_some]
    exact hLoose _ _
  | @group before group rest pieces _ hGroup _ ih =>
    obtain ⟨-, hInner⟩ := isUnsided_append.mp hUnsided
    obtain ⟨hHere, hLater⟩ := isUnsided_append.mp hInner
    have hRest := ih hLater
    rw [fitChunks, List.map_append, pairsBehind_append, hLoose, Option.bind_some]
    simp only [fitChunks, pipeCount]
    split
    · have hSides := pairsBehind_pipeSides pipes passed (pipeDepths 0 group)
      have hLength : (pipeSides pipes passed (pipeDepths 0 group)).length =
          group.countP isLoosePipe := by
        rw [length_pipeSides, length_pipeDepths]
      have hPairs := pairsBehind_fit hHere hGroup.balanced hLength hSides
      rw [Nat.zero_add, Nat.zero_add] at hPairs
      have hGiven : fit [] (pipeSides pipes passed (pipeDepths 0 group)) group =
          fit (List.replicate 0 true) (pipeSides pipes passed (pipeDepths 0 group)) group := rfl
      rw [List.map_append, pairsBehind_append, hGiven, hPairs, Option.bind_some, hRest,
        Nat.add_assoc]
    · rw [List.map_append, pairsBehind_append, hLoose, Option.bind_some, hRest, Nat.zero_add]

/-! ## Pairs of a text -/

section Texts

variable {text : Text}

/-- No delimiter has a side in a text without the commands. -/
theorem isUnsided_marks (h : ∀ side : Side, side.name ∉ controlWords text) :
    IsUnsided (marks text) := by
  intro mark hMark hDelimiter side
  rw [Bool.eq_false_iff]
  intro hFollows
  have hAlpha : mark.char.isAlpha = false := by
    rcases eq_of_isDelimiter hDelimiter with hc | hc | hc <;> rw [hc] <;> rfl
  have hEnds : side.name ∈ mark.ends := mem_ends.mpr ⟨of_decide_eq_true hFollows, hAlpha⟩
  refine h side ?_
  rw [controlWords_eq]
  exact List.mem_append_left _ (List.mem_flatMap.mpr ⟨mark, hMark, hEnds⟩)

theorem pairsBehind_of_not_mem {words : List Text} (h : ∀ side : Side, side.name ∉ words)
    (pairs : Nat) : pairsBehind pairs (words.map side?) = some pairs := by
  apply pairsBehind_of_none
  intro side hSide
  obtain ⟨word, hWord, rfl⟩ := List.mem_map.mp hSide
  apply side?_eq_none
  rintro other rfl
  exact h other hWord

/-- Next to control words without sides, only the sides that are given matter. -/
theorem pairsBehind_ends {fitted : List Fitted}
    (h : ∀ one ∈ fitted, ∀ side : Side, side.name ∉ one.mark.ends) (pairs : Nat) :
    pairsBehind pairs ((fitted.flatMap fun one =>
        one.mark.ends ++ (one.side.map Side.name).toList).map side?) =
      pairsBehind pairs (fitted.map Fitted.side) := by
  induction fitted generalizing pairs with
  | nil => rfl
  | cons one rest ih =>
    obtain ⟨hOne, hRest⟩ := List.forall_mem_cons.mp h
    have hSide : pairsBehind pairs ((one.side.map Side.name).toList.map side?) =
        pairsBehind pairs [one.side] := by
      cases one.side with
      | none => rfl
      | some side => cases side <;> rfl
    have hGiven := pairsBehind_append pairs [one.side] (rest.map Fitted.side)
    rw [List.singleton_append] at hGiven
    rw [List.flatMap_cons, List.map_append, List.map_append, pairsBehind_append,
      pairsBehind_append, pairsBehind_of_not_mem hOne, Option.bind_some, hSide, List.map_cons,
      hGiven]
    exact congrArg _ (funext (ih hRest))

/-- The sides among the control words of a sized text are those that it was given. -/
theorem pairsBehind_controlWords (pipes : PipeSizing)
    (h : ∀ side : Side, side.name ∉ controlWords text) :
    pairsBehind 0 ((controlWords (size pipes text)).map side?) =
      pairsBehind 0 ((fitText pipes text).map Fitted.side) := by
  simp only [controlWords_eq text, ← map_mark_fitText pipes text, List.flatMap_map,
    List.mem_append, not_or] at h
  have hEnds : ∀ one ∈ fitText pipes text, ∀ side : Side, side.name ∉ one.mark.ends :=
    fun one hOne side hEnd => (h side).1 (List.mem_flatMap.mpr ⟨one, hOne, hEnd⟩)
  rw [controlWords_size, List.map_append, pairsBehind_append, pairsBehind_ends hEnds]
  cases pairsBehind 0 ((fitText pipes text).map Fitted.side) with
  | none => rfl
  | some behind => exact pairsBehind_of_not_mem (fun side => (h side).2) behind

/-- What sizing leaves open in a text without sides is one pair of pipes at most. -/
theorem isPaired_size_iff (pipes : PipeSizing) (h : ∀ side : Side, side.name ∉ controlWords text) :
    IsPaired (controlWords (size pipes text)) ↔
      openPipes pipes (Nat.count (IsCandidate text) text.length) = 0 := by
  apply isPaired_iff
  rw [pairsBehind_controlWords pipes h, count_isCandidate_text]
  have hStart : openPipes pipes 0 = 0 := by cases pipes <;> rfl
  have hPairs := pairsBehind_fitChunks pipes (chunks_cut text) (isUnsided_marks h) 0
  rw [hStart, Nat.zero_add] at hPairs
  exact hPairs

/-- In a text with neither `\left` nor `\right`, sizing puts as many of both, and no more of the
second than of the first up to any point, unless only the first pair of pipes is to be sized and
there is one candidate for it. These are control words, so `\leftarrow` is neither. -/
theorem isPaired_size (h : ∀ side : Side, side.name ∉ controlWords text) :
    IsPaired (controlWords (size .scoped text)) ∧ IsPaired (controlWords (size .off text)) ∧
      (IsPaired (controlWords (size .firstPair text)) ↔
        Nat.count (IsCandidate text) text.length ≠ 1) := by
  refine ⟨(isPaired_size_iff .scoped h).mpr rfl, (isPaired_size_iff .off h).mpr rfl, ?_⟩
  rw [isPaired_size_iff .firstPair h]
  simp [openPipes]

end Texts

/-- A first pair of pipes that begins in one group around a fraction and ends in the next, with
pipes of one depth in two places, a longer command, and parentheses that close nothing or are never
closed. -/
def pipesAcross : Text := "\\leftarrow)(\\frac12|(u)\\\\)\\|((v|\\frac34)(|w))(|".toList

/-- A pipe that stands alone. -/
def pipeAlone : Text := "(\\frac12|x)".toList

theorem isPaired_size_pipesAcross :
    ((∀ side : Side, side.name ∉ controlWords pipesAcross) ∧
      ∀ side : Side, side.name ∉ controlWords pipeAlone) ∧
      IsPaired (controlWords
        ("\\leftarrow)\\left(\\frac12|\\left(u\\right)\\\\\\right)\\|".toList ++
          "\\left(\\left(v\\left|\\frac34\\right)\\left(\\right|w\\right)\\right)(|".toList)) ∧
      IsPaired (controlWords (size .firstPair pipesAcross)) ∧
      ¬ IsPaired (controlWords (size .firstPair pipeAlone)) := by
  have hAcross : ∀ side : Side, side.name ∉ controlWords pipesAcross := by
    rintro (_ | _) <;> decide +kernel
  have hAlone : ∀ side : Side, side.name ∉ controlWords pipeAlone := by
    rintro (_ | _) <;> decide +kernel
  have hWritten : size .scoped pipesAcross =
      "\\leftarrow)\\left(\\frac12|\\left(u\\right)\\\\\\right)\\|".toList ++
        "\\left(\\left(v\\left|\\frac34\\right)\\left(\\right|w\\right)\\right)(|".toList := by
    decide +kernel
  obtain ⟨hScoped, -, hFirst⟩ := isPaired_size hAcross
  obtain ⟨-, -, hAloneFirst⟩ := isPaired_size hAlone
  rw [hWritten] at hScoped
  refine ⟨⟨hAcross, hAlone⟩, hScoped, hFirst.mpr (by decide +kernel), ?_⟩
  rw [hAloneFirst]
  decide +kernel

end Formulary.Delimiter
