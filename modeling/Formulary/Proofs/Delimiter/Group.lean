import Formulary.Proofs.Delimiter.Pipe
import Formulary.Proofs.Delimiter.Settled

/-!
# The groups of a text

`Cut` tells the groups of a text one after the other, from the left. Here each of them is told by
itself: a group around a fraction that begins where no parenthesis is open. A parenthesis that
closes nothing leaves none open (`openBehind`), and behind one that is never closed no group begins.

* `IsSizedGroup.chunks_eq`, `isSizedGroup_of_chunks`: these are the groups around fractions that the
  scan finds;
* `exists_opening`: a parenthesis that is open behind a stretch was opened in it, and what follows
  it is balanced;
* `size_append`: two texts are sized one after the other, when the first leaves no parenthesis open
  and ends neither in a letter nor in a backslash. Where only the first pair of pipes is sized, the
  pipes of the first text count in the second one, so this case is left out.
-/

namespace Formulary.Delimiter

/-! ## Open parentheses -/

/-- The number of parentheses open behind a stretch, given the number before it. One that closes
nothing is passed over. -/
def openBehind (depth : Nat) (marked : List Mark) : Nat := marked.foldl depthAfter depth

section Depth

variable {depth behind : Nat} {marked : List Mark}

theorem openBehind_append (depth : Nat) (first second : List Mark) :
    openBehind depth (first ++ second) = openBehind (openBehind depth first) second :=
  List.foldl_append

theorem openBehind_of_depthThrough (h : depthThrough depth marked = some behind) :
    openBehind depth marked = behind := by
  induction marked generalizing depth with
  | nil => exact Option.some.inj h
  | cons mark rest ih =>
    rw [openBehind, List.foldl_cons, depthAfter]
    simp only [depthThrough] at h
    split at h
    · rw [if_pos ‹_›]
      exact ih h
    · rw [if_neg ‹_›]
      split at h
      · rw [if_pos ‹_›]
        cases depth with
        | zero => cases h
        | succ outer => exact ih h
      · rw [if_neg ‹_›]
        exact ih h

theorem IsGroup.openBehind_eq {group : List Mark} (h : IsGroup group) : openBehind 0 group = 0 :=
  openBehind_of_depthThrough h.balanced

/-- Where no parenthesis opens, none is open. -/
theorem openBehind_loose (h : ∀ mark ∈ marked, mark.isBare '(' = false) :
    openBehind 0 marked = 0 := by
  induction marked with
  | nil => rfl
  | cons mark rest ih =>
    obtain ⟨hMark, hRest⟩ := List.forall_mem_cons.mp h
    have hAfter : depthAfter 0 mark = 0 := by
      rw [depthAfter, hMark, if_neg Bool.false_ne_true, Nat.zero_sub, ite_self]
    rw [openBehind, List.foldl_cons, hAfter]
    exact ih hRest

/-- A parenthesis that is open behind a stretch was opened in it, and what follows it is
balanced. -/
theorem exists_opening (h : depthThrough 0 marked = some (depth + 1)) :
    ∃ outer opening body, marked = outer ++ opening :: body ∧ opening.isBare '(' ∧
      depthThrough 0 outer = some depth ∧ Balanced body := by
  generalize hLength : marked.length = bound
  induction bound using Nat.strongRecOn generalizing marked depth with
  | ind bound ih =>
    rcases List.eq_nil_or_concat marked with rfl | ⟨front, last, rfl⟩
    · cases h
    · rw [List.concat_eq_append, List.length_append, List.length_singleton] at hLength
      rw [List.concat_eq_append, depthThrough_append] at h
      obtain ⟨between, hFront, hLast⟩ := Option.bind_eq_some_iff.mp h
      rw [List.concat_eq_append]
      by_cases hOpen : last.isBare '('
      · obtain rfl : between = depth := by simpa [depthThrough, hOpen] using hLast
        exact ⟨front, last, [], rfl, hOpen, hFront, rfl⟩
      · by_cases hClose : last.isBare ')'
        · -- The last mark closes a parenthesis, before which this one was open already.
          obtain rfl : between = depth + 2 := by
            cases between with
            | zero => simp [depthThrough, hOpen, hClose] at hLast
            | succ outer => simpa [depthThrough, hOpen, hClose] using hLast
          obtain ⟨middle, inside, inner, rfl, hInside, hMiddle, hInner⟩ :=
            ih _ (by omega) hFront rfl
          obtain ⟨outer, opening, body, rfl, hOpening, hOuter, hBody⟩ :=
            ih _ (by simp at hLength; omega) hMiddle rfl
          refine ⟨outer, opening, body ++ inside :: (inner ++ [last]), by simp, hOpening, hOuter,
            ?_⟩
          have hGroup : IsGroup (inside :: (inner ++ [last])) :=
            ⟨inside, inner, last, rfl, hInside, hInner, hClose⟩
          exact hBody.append hGroup.balanced
        · obtain rfl : between = depth + 1 := by simpa [depthThrough, hOpen, hClose] using hLast
          obtain ⟨outer, opening, body, rfl, hOpening, hOuter, hBody⟩ :=
            ih _ (by omega) hFront rfl
          have hNeutral : Balanced [last] := by simp [Balanced, depthThrough, hOpen, hClose]
          exact ⟨outer, opening, body ++ [last], by simp, hOpening, hOuter, hBody.append hNeutral⟩

/-- Behind its first mark and before its last one, the first parenthesis of a group is open. -/
theorem IsGroup.exists_depth {front back : List Mark} {mark : Mark}
    (h : IsGroup (front ++ mark :: back)) (hFront : front ≠ []) :
    ∃ depth, depthThrough 0 front = some (depth + 1) := by
  obtain ⟨opening, body, closing, hEq, hOpen, hBody, -⟩ := h
  obtain ⟨first, front, rfl⟩ := List.exists_cons_of_ne_nil hFront
  obtain ⟨rfl, hRest⟩ := List.cons.inj hEq
  obtain ⟨rest, rfl⟩ : ∃ rest, body = front ++ rest := by
    rcases List.append_eq_append_iff.mp hRest with ⟨rest, hBodyEq, -⟩ | ⟨rest, hFrontEq, hLast⟩
    · exact ⟨rest, hBodyEq⟩
    · cases rest with
      | nil => exact ⟨[], by rw [hFrontEq, List.append_nil, List.append_nil]⟩
      | cons other rest => simp at hLast
  rw [Balanced, depthThrough_append] at hBody
  obtain ⟨depth, hDepth, -⟩ := Option.bind_eq_some_iff.mp hBody
  exact ⟨depth, by rw [depthThrough, if_pos hOpen]; exact depthThrough_add hDepth 1⟩

/-- Before a parenthesis of a group that closes, one is open. -/
theorem IsGroup.exists_depth_of_close {front back : List Mark} {mark : Mark}
    (h : IsGroup (front ++ mark :: back)) (hClose : mark.isBare ')') :
    ∃ depth, depthThrough 0 front = some (depth + 1) := by
  refine h.exists_depth ?_
  rintro rfl
  obtain ⟨opening, body, closing, hEq, hOpen, -⟩ := h
  obtain ⟨rfl, -⟩ := List.cons.inj hEq
  rw [isBare_of_ne hOpen (by decide)] at hClose
  cases hClose

end Depth

/-! ## Cuts one after the other -/

section Cuts

variable {first second : List Mark} {pieces others : List Chunk}

/-- The first piece of a cut stands outside groups. -/
theorem Cut.exists_loose (h : Cut first pieces) : ∃ front rest, pieces = .loose front :: rest := by
  cases h with
  | loose _ => exact ⟨_, _, rfl⟩
  | unclosed _ _ _ => exact ⟨_, _, rfl⟩
  | group _ _ _ => exact ⟨_, _, rfl⟩

theorem Cut.prepend {front : List Mark} (hFirst : ∀ mark ∈ first, mark.isBare '(' = false)
    (h : Cut second (.loose front :: others)) :
    Cut (first ++ second) (.loose (first ++ front) :: others) := by
  have hJoined : ∀ {more : List Mark}, (∀ mark ∈ more, mark.isBare '(' = false) →
      ∀ mark ∈ first ++ more, mark.isBare '(' = false := by
    intro more hMore mark hMark
    exact (List.mem_append.mp hMark).elim (hFirst mark) (hMore mark)
  cases h with
  | loose hLoose => exact .loose (hJoined hLoose)
  | unclosed hLoose hOpen hAfter =>
    rw [← List.append_assoc]
    exact .unclosed (hJoined hLoose) hOpen hAfter
  | group hLoose hGroup hRest =>
    rw [← List.append_assoc]
    exact .group (hJoined hLoose) hGroup hRest

/-- Behind marks that leave no parenthesis open, other marks are cut as by themselves. -/
theorem Cut.append {front : List Mark} (h : Cut first pieces) (hOpen : openBehind 0 first = 0)
    (hSecond : Cut second (.loose front :: others)) :
    ∃ earlier last, pieces = earlier ++ [.loose last] ∧
      Cut (first ++ second) (earlier ++ .loose (last ++ front) :: others) := by
  induction h with
  | @loose marked hLoose => exact ⟨[], marked, rfl, hSecond.prepend hLoose⟩
  | @unclosed before opening after hLoose hOpening hAfter =>
    exfalso
    obtain ⟨behind, hBehind⟩ := Option.ne_none_iff_exists'.mp hAfter
    have hInner : openBehind 1 after = behind + 1 :=
      openBehind_of_depthThrough (depthThrough_add hBehind 1)
    have hFirst : depthAfter 0 opening = 1 := if_pos hOpening
    rw [openBehind_append, openBehind_loose hLoose, openBehind, List.foldl_cons, hFirst] at hOpen
    exact absurd (hInner.symm.trans hOpen) (Nat.succ_ne_zero behind)
  | @group before group rest pieces hLoose hGroup _ ih =>
    have hRest : openBehind 0 rest = 0 := by
      rwa [openBehind_append, openBehind_loose hLoose, openBehind_append,
        hGroup.openBehind_eq] at hOpen
    obtain ⟨earlier, last, rfl, hCut⟩ := ih hRest
    refine ⟨.loose before :: .group group :: earlier, last, rfl, ?_⟩
    have hWhole := Cut.group hLoose hGroup hCut
    simpa using hWhole

/-- What stands before a group leaves no parenthesis open. -/
theorem Cut.of_group {group : List Mark} {earlier later : List Chunk} {marked : List Mark}
    (h : Cut marked (earlier ++ .group group :: later)) :
    IsGroup group ∧ openBehind 0 (earlier.flatMap Chunk.marks) = 0 := by
  generalize hPieces : earlier ++ .group group :: later = pieces at h
  induction h generalizing earlier with
  | loose _ => simp [List.append_eq_singleton_iff] at hPieces
  | unclosed _ _ _ =>
    have hMem : Chunk.group group ∈ earlier ++ .group group :: later := by simp
    rw [hPieces] at hMem
    simp at hMem
  | @group before other rest pieces hLoose hOther _ ih =>
    have hBefore : openBehind 0 before = 0 := openBehind_loose hLoose
    rcases earlier with _ | ⟨chunk, _ | ⟨next, earlier⟩⟩
    · cases hPieces
    · cases hPieces
      exact ⟨hOther, by simpa [Chunk.marks] using hBefore⟩
    · rw [List.cons_append, List.cons_append, List.cons.injEq, List.cons.injEq] at hPieces
      obtain ⟨rfl, rfl, hPieces⟩ := hPieces
      obtain ⟨hGroup, hEarlier⟩ := ih hPieces
      refine ⟨hGroup, ?_⟩
      simp only [List.flatMap_cons, Chunk.marks]
      rw [openBehind_append, hBefore, openBehind_append, hOther.openBehind_eq, hEarlier]

end Cuts

/-! ## Groups by themselves -/

/-- A group of a text around a fraction that is within no other group, and the marks on both sides
of it. -/
structure IsSizedGroup (text : Text) (before group after : List Mark) : Prop where
  whole : marks text = before ++ (group ++ after)
  /-- No parenthesis is open before the group. -/
  outermost : openBehind 0 before = 0
  isGroup : IsGroup group
  fraction : hasFraction group

section Groups

variable {text : Text} {before group after : List Mark}

theorem cut_chunksFrom (marked : List Mark) : Cut marked (chunksFrom 0 [] marked) := by
  obtain ⟨pieces, hCut⟩ := exists_cut marked
  exact chunksFrom_eq_of_cut hCut ▸ hCut

theorem flatten_chunksFrom (marked : List Mark) :
    (chunksFrom 0 [] marked).flatMap Chunk.marks = marked := (cut_chunksFrom marked).flatten

/-- The scan finds the group, and reads what stands before it and behind it by themselves. -/
theorem IsSizedGroup.chunks_eq (h : IsSizedGroup text before group after) :
    chunks text = chunksFrom 0 [] before ++ .group group :: chunksFrom 0 [] after := by
  have hRest : Cut ([] ++ (group ++ after)) (.loose [] :: .group group :: chunksFrom 0 [] after) :=
    .group (by simp) h.isGroup (cut_chunksFrom after)
  obtain ⟨earlier, last, hEarlier, hCut⟩ := (cut_chunksFrom before).append h.outermost hRest
  have hChunks : chunks text = earlier ++ .loose (last ++ []) :: .group group ::
      chunksFrom 0 [] after := by
    rw [chunks, h.whole]
    exact chunksFrom_eq_of_cut hCut
  rw [hChunks, hEarlier, List.append_nil, List.append_assoc]
  rfl

/-- Every group around a fraction that the scan finds is one. -/
theorem isSizedGroup_of_chunks {earlier later : List Chunk}
    (hChunks : chunks text = earlier ++ .group group :: later) (hFraction : hasFraction group) :
    IsSizedGroup text (earlier.flatMap Chunk.marks) group (later.flatMap Chunk.marks) := by
  have hCut := chunks_cut text
  rw [hChunks] at hCut
  obtain ⟨hGroup, hOutermost⟩ := hCut.of_group
  refine ⟨?_, hOutermost, hGroup, hFraction⟩
  rw [← hCut.flatten, List.flatMap_append, List.flatMap_cons]
  rfl

end Groups

/-! ## Texts one after the other -/

theorem fitChunks_append (pipes : PipeSizing) (passed : Nat) (first second : List Chunk) :
    fitChunks pipes passed (first ++ second) =
      fitChunks pipes passed first ++ fitChunks pipes (passed + pipeCount first) second := by
  induction first generalizing passed with
  | nil => rfl
  | cons chunk rest ih =>
    cases chunk with
    | loose marked => simp only [List.cons_append, fitChunks, ih, pipeCount, List.append_assoc]
    | group marked =>
      simp only [List.cons_append, fitChunks, pipeCount]
      split <;> simp only [ih, List.append_assoc, Nat.add_assoc, Nat.zero_add]

/-- Unless only the first pair of pipes is sized, the pipes of earlier groups do not matter. -/
theorem fitChunks_passed {pipes : PipeSizing} (hPipes : pipes ≠ .firstPair) (passed : Nat)
    (pieces : List Chunk) : fitChunks pipes passed pieces = fitChunks pipes 0 pieces := by
  induction pieces generalizing passed with
  | nil => rfl
  | cons chunk rest ih =>
    cases chunk with
    | loose marked => rw [fitChunks, fitChunks, ih]
    | group marked =>
      simp only [fitChunks]
      split
      · rw [pipeSides_passed hPipes, ih, ih (0 + _)]
      · rw [ih]

theorem fitText_append {pipes : PipeSizing} (hPipes : pipes ≠ .firstPair) {first second : Text}
    (hMarks : marks (first ++ second) = marks first ++ marks second)
    (hOpen : openBehind 0 (marks first) = 0) :
    fitText pipes (first ++ second) = fitText pipes first ++ fitText pipes second := by
  have hSecond := chunks_cut second
  obtain ⟨front, others, hOthers⟩ := hSecond.exists_loose
  rw [hOthers] at hSecond
  obtain ⟨earlier, last, hFirst, hCut⟩ := (chunks_cut first).append hOpen hSecond
  have hChunks : chunks (first ++ second) = earlier ++ .loose (last ++ front) :: others := by
    rw [chunks, hMarks]
    exact chunksFrom_eq_of_cut hCut
  have hPassed := fitChunks_passed hPipes (0 + pipeCount earlier)
  rw [fitText, fitText, fitText, hChunks, hFirst, hOthers, fitChunks_append, fitChunks_append,
    hPassed, hPassed]
  simp [fitChunks, unfitted]

/-- A text that ends neither in a letter nor in a backslash has no bearing on what follows. -/
theorem through_of_getLast? {text : Text}
    (h : ∀ c ∈ text.getLast?, c ≠ '\\' ∧ c.isAlpha = false) : Lead.plain.through text = .plain := by
  rcases List.eq_nil_or_concat text with rfl | ⟨front, last, rfl⟩
  · rfl
  · obtain ⟨hSlash, hAlpha⟩ := h last (by simp)
    rw [List.concat_eq_append, Lead.through, List.foldl_append, List.foldl_cons, List.foldl_nil]
    cases front.foldl Lead.after .plain <;> simp [Lead.after, hSlash, hAlpha]

/-- Behind a text that leaves no parenthesis open and ends neither in a letter nor in a backslash,
another text is sized as by itself. -/
theorem size_append {pipes : PipeSizing} (hPipes : pipes ≠ .firstPair) {first : Text}
    (hOpen : openBehind 0 (marks first) = 0)
    (hLast : ∀ c ∈ first.getLast?, c ≠ '\\' ∧ c.isAlpha = false) (second : Text) :
    size pipes (first ++ second) = size pipes first ++ size pipes second := by
  have hMarks : marks (first ++ second) = marks first ++ marks second := by
    rw [marks, marksFrom_append, through_of_getLast? hLast]
    rfl
  rw [← write_fitText, fitText_append hPipes hMarks hOpen, write_append, write_fitText,
    write_fitText]

/-- A parenthesis that closes nothing, escaped ones, and a group around a fraction with pipes at two
depths. -/
def strayFront : Text := "x)(|\\frac12(y\\)|z)|)\\(".toList

/-- A parenthesis that closes nothing, a group around a fraction with the pipes of one depth in two
places, and a group that is never closed. -/
def strayBack : Text := "|)(\\\\(u|v)|\\left(\\frac56|)\\\\\\right)|)(w".toList

theorem size_append_strayFront :
    (PipeSizing.scoped ≠ .firstPair ∧ openBehind 0 (marks strayFront) = 0 ∧
      ∀ c ∈ strayFront.getLast?, c ≠ '\\' ∧ c.isAlpha = false) ∧
      size .scoped (strayFront ++ strayBack) =
      "x)\\left(\\left|\\frac12\\left(y\\)|z\\right)\\right|\\right)\\(".toList ++
      "|)\\left(\\\\\\left(u\\left|v\\right)|\\left(\\frac56\\right|)\\\\\\right)|)(w".toList := by
  have hPipes : PipeSizing.scoped ≠ .firstPair := by decide
  have hOpen : openBehind 0 (marks strayFront) = 0 := by decide +kernel
  have hEnd : strayFront.getLast? = some '(' := by decide +kernel
  have hLast : ∀ c ∈ strayFront.getLast?, c ≠ '\\' ∧ c.isAlpha = false := by
    intro c hc
    rw [hEnd] at hc
    cases hc
    decide
  refine ⟨⟨hPipes, hOpen, hLast⟩, ?_⟩
  rw [size_append hPipes hOpen hLast strayBack]
  decide +kernel

end Formulary.Delimiter
