import Formulary.Proofs.Delimiter.Candidate

/-!
# Where the groups of a text stand

`sizedRanges` lists the groups around fractions that the scan finds, by the numbers of their
characters, and `size` writes the stretches that it lists (`size_eq_sizeRanges`). Which stretches
these are is told without the scan (`Range.IsSized`), by the number of parentheses that are open
before each character (`depthAt`).

* `detectsGroups_sizedRanges`: the list is sorted, and has the stretches from a parenthesis that
  opens where none is open to the one that closes it, if they mention a fraction;
* `IsGroup.isTracked`: the two passes that follow the parentheses of such a stretch again find one
  open at each that closes, and none at the end;
* `sizedRanges_spec` joins them.
-/

namespace Formulary.Delimiter

/-! ## Ranges -/

/-- A stretch of a text, from the character with the first number to the one before the second. -/
structure Range where
  start : Nat
  stop : Nat
  deriving DecidableEq, Repr

/-- What stands in a range. -/
def Range.slice {α : Type} (range : Range) (items : List α) : List α :=
  (items.drop range.start).take (range.stop - range.start)

/-- The range of a chunk that begins at the character `offset`, if it is a group around a
fraction. -/
def Chunk.range? (offset : Nat) : Chunk → Option Range
  | .loose _ => none
  | .group marked => if hasFraction marked then some ⟨offset, offset + marked.length⟩ else none

/-- The ranges of the groups around fractions. The first chunk begins at the character `offset`. -/
def rangesFrom : Nat → List Chunk → List Range
  | _, [] => []
  | offset, chunk :: rest =>
    (chunk.range? offset).toList ++ rangesFrom (offset + chunk.marks.length) rest

/-- The ranges of the groups around fractions of a text. -/
def sizedRanges (text : Text) : List Range := rangesFrom 0 (chunks text)

/-- Write marks from the one with the number `done`, with the ranges resized; `passed` loose pipes
stand in the ranges before. -/
def sizeRanges (pipes : PipeSizing) (marked : List Mark) : Nat → Nat → List Range → Text
  | done, _, [] => plainText (marked.drop done)
  | done, passed, range :: rest =>
    let depths := pipeDepths 0 (range.slice marked)
    plainText (Range.slice ⟨done, range.start⟩ marked) ++
      (resize [] (pipeSides pipes passed depths) (range.slice marked) ++
        sizeRanges pipes marked range.stop (passed + depths.length) rest)

section Scan

variable {pipes : PipeSizing} {offset : Nat} {pieces : List Chunk} {range : Range}

theorem slice_append {α : Type} (before within after : List α) :
    Range.slice ⟨before.length, before.length + within.length⟩ (before ++ (within ++ after)) =
      within := by
  rw [Range.slice, List.drop_left, Nat.add_sub_cancel_left, List.take_left]

theorem plainText_append (first second : List Mark) :
    plainText (first ++ second) = plainText first ++ plainText second := List.map_append

/-- The marks `held` have been passed since the last range. -/
theorem sizeRanges_rangesFrom (passed : Nat) (before held : List Mark) (pieces : List Chunk) :
    sizeRanges pipes (before ++ (held ++ pieces.flatMap Chunk.marks)) before.length passed
        (rangesFrom (before.length + held.length) pieces) =
      plainText held ++ sizeChunks pipes passed pieces := by
  induction pieces generalizing passed before held with
  | nil => simp [rangesFrom, sizeRanges, sizeChunks]
  | cons chunk rest ih =>
    have hPassed : ∀ marked : List Mark,
        sizeRanges pipes (before ++ (held ++ (marked ++ rest.flatMap Chunk.marks))) before.length
            passed (rangesFrom (before.length + held.length + marked.length) rest) =
          plainText held ++ (plainText marked ++ sizeChunks pipes passed rest) := by
      intro marked
      have hJoined := ih passed before (held ++ marked)
      rw [List.length_append, ← Nat.add_assoc, List.append_assoc] at hJoined
      rw [hJoined, plainText_append, List.append_assoc]
    rw [List.flatMap_cons]
    cases chunk with
    | loose marked => exact hPassed marked
    | group marked =>
      simp only [rangesFrom, sizeChunks, Chunk.marks, Chunk.range?]
      by_cases hFraction : hasFraction marked
      · rw [if_pos hFraction, if_pos hFraction, Option.toList_some, List.singleton_append,
          sizeRanges]
        have hSlice := slice_append (before ++ held) marked (rest.flatMap Chunk.marks)
        rw [List.length_append, List.append_assoc] at hSlice
        have hRest := ih (passed + (pipeDepths 0 marked).length) (before ++ (held ++ marked)) []
        simp only [List.length_append, List.append_assoc, List.nil_append, List.length_nil,
          Nat.add_zero, ← Nat.add_assoc] at hRest
        rw [slice_append, hSlice, hRest]
        rfl
      · rw [if_neg hFraction, if_neg hFraction]
        exact hPassed marked

/-- The stage writes a text by its ranges. -/
theorem size_eq_sizeRanges (pipes : PipeSizing) (text : Text) :
    size pipes text = sizeRanges pipes (marks text) 0 0 (sizedRanges text) := by
  have hWhole : marks text = (chunks text).flatMap Chunk.marks := (chunks_cut text).flatten.symm
  rw [hWhole]
  exact (sizeRanges_rangesFrom 0 [] [] (chunks text)).symm

theorem range?_eq_some {chunk : Chunk} : chunk.range? offset = some range ↔
    ∃ group, chunk = .group group ∧ hasFraction group ∧
      range = ⟨offset, offset + group.length⟩ := by
  cases chunk with
  | loose marked => simp [Chunk.range?]
  | group marked =>
    rw [Chunk.range?, Option.ite_none_right_eq_some, Option.some.injEq]
    constructor
    · rintro ⟨hFraction, rfl⟩
      exact ⟨marked, rfl, hFraction, rfl⟩
    · rintro ⟨group, hGroup, hFraction, rfl⟩
      cases hGroup
      exact ⟨hFraction, rfl⟩

theorem mem_rangesFrom :
    range ∈ rangesFrom offset pieces ↔ ∃ earlier group later,
      pieces = earlier ++ .group group :: later ∧ hasFraction group ∧
        range = ⟨offset + (earlier.flatMap Chunk.marks).length,
          offset + (earlier.flatMap Chunk.marks).length + group.length⟩ := by
  induction pieces generalizing offset with
  | nil => simp [rangesFrom]
  | cons chunk rest ih =>
    rw [rangesFrom, List.mem_append, Option.mem_toList, range?_eq_some, ih]
    constructor
    · rintro (⟨group, rfl, hFraction, rfl⟩ | ⟨earlier, group, later, rfl, hFraction, rfl⟩)
      · exact ⟨[], group, rest, rfl, hFraction, rfl⟩
      · refine ⟨chunk :: earlier, group, later, rfl, hFraction, ?_⟩
        rw [List.flatMap_cons, List.length_append, ← Nat.add_assoc offset]
    · rintro ⟨earlier, group, later, hPieces, hFraction, rfl⟩
      cases earlier with
      | nil =>
        obtain ⟨rfl, rfl⟩ := List.cons.inj hPieces
        exact .inl ⟨group, rfl, hFraction, rfl⟩
      | cons first earlier =>
        obtain ⟨rfl, rfl⟩ := List.cons.inj hPieces
        refine .inr ⟨earlier, group, later, rfl, hFraction, ?_⟩
        rw [List.flatMap_cons, List.length_append, ← Nat.add_assoc offset]

/-- Ranges do not overlap, and stand in the order of the text. -/
theorem pairwise_rangesFrom (offset : Nat) (pieces : List Chunk) :
    (rangesFrom offset pieces).Pairwise fun first second => first.stop ≤ second.start := by
  induction pieces generalizing offset with
  | nil => exact .nil
  | cons chunk rest ih =>
    rw [rangesFrom]
    cases hRange : chunk.range? offset with
    | none => exact ih _
    | some first =>
      obtain ⟨group, rfl, -, rfl⟩ := range?_eq_some.mp hRange
      refine List.pairwise_cons.mpr ⟨fun second hSecond => ?_, ih _⟩
      obtain ⟨earlier, other, later, -, -, rfl⟩ := mem_rangesFrom.mp hSecond
      exact Nat.le_add_right _ _

/-- The listed ranges are those of the groups around fractions that stand in no other group. -/
theorem mem_sizedRanges {text : Text} :
    range ∈ sizedRanges text ↔ ∃ before group after, IsSizedGroup text before group after ∧
      range = ⟨before.length, before.length + group.length⟩ := by
  rw [sizedRanges, mem_rangesFrom]
  constructor
  · rintro ⟨earlier, group, later, hChunks, hFraction, rfl⟩
    exact ⟨_, group, _, isSizedGroup_of_chunks hChunks hFraction, by rw [Nat.zero_add]⟩
  · rintro ⟨before, group, after, hGroup, rfl⟩
    refine ⟨_, group, _, hGroup.chunks_eq, hGroup.fraction, ?_⟩
    rw [flatten_chunksFrom, Nat.zero_add]

end Scan

/-! ## Depths -/

/-- How many parentheses are open before the character with this number. One that closes nothing is
passed over. -/
def depthAt (text : Text) (n : Nat) : Nat := openBehind 0 ((marks text).take n)

/-- The character with this number is `c`, and not escaped. -/
def bareAt (text : Text) (c : Char) (n : Nat) : Bool := (marks text)[n]?.any (Mark.isBare · c)

/-- The range ends at the first place behind its first character where no parenthesis is open. -/
structure Range.IsClosed (text : Text) (range : Range) : Prop where
  nonempty : range.start < range.stop
  within : ∀ n, range.start < n → n < range.stop → 0 < depthAt text n
  ending : depthAt text range.stop = 0

/-- A stretch from a parenthesis that opens where none is open to the one that closes it, if a
fraction is mentioned in it. -/
structure Range.IsSized (text : Text) (range : Range) : Prop where
  opening : bareAt text '(' range.start
  outermost : depthAt text range.start = 0
  closing : bareAt text ')' (range.stop - 1)
  closed : range.IsClosed text
  fraction : Text.mentions "frac".toList (range.slice text)

section Depths

variable {text : Text} {before group after front back : List Mark} {opening mark : Mark}
  {range : Range} {n : Nat}

theorem bareAt_iff_getElem? {c : Char} :
    bareAt text c n ↔ ∃ mark, (marks text)[n]? = some mark ∧ mark.isBare c := by
  rw [bareAt, Option.any_eq_true]

theorem bareAt_iff {c : Char} :
    bareAt text c n ↔ ∃ before mark after, marks text = before ++ mark :: after ∧
      before.length = n ∧ mark.isBare c := by
  rw [bareAt_iff_getElem?]
  constructor
  · rintro ⟨mark, hMark, hBare⟩
    obtain ⟨hn, rfl⟩ := List.getElem?_eq_some_iff.mp hMark
    refine ⟨(marks text).take n, _, (marks text).drop (n + 1), ?_, ?_, hBare⟩
    · rw [← List.drop_eq_getElem_cons hn, List.take_append_drop]
    · rw [List.length_take, Nat.min_eq_left (Nat.le_of_lt hn)]
  · rintro ⟨before, mark, after, hWhole, rfl, hBare⟩
    exact ⟨mark, by rw [hWhole, List.getElem?_append_right (Nat.le_refl _), Nat.sub_self]; rfl,
      hBare⟩

/-- Behind a front that leaves no parenthesis open, depths are those of the stretch since then. -/
theorem depthAt_behind (hWhole : marks text = before ++ after)
    (hOutermost : openBehind 0 before = 0) (n : Nat) :
    depthAt text (before.length + n) = openBehind 0 (after.take n) := by
  rw [depthAt, hWhole, List.take_length_add_append, openBehind_append, hOutermost]

/-- At every place within a group a parenthesis is open. -/
theorem IsGroup.openBehind_take (h : IsGroup group) (hPos : 0 < n) (hn : n < group.length) :
    0 < openBehind 0 (group.take n) := by
  have hSplit : group = group.take n ++ group[n] :: group.drop (n + 1) := by
    rw [← List.drop_eq_getElem_cons hn, List.take_append_drop]
  have hFront : group.take n ≠ [] := by
    rw [← List.length_pos_iff, List.length_take]
    omega
  obtain ⟨depth, hDepth⟩ := IsGroup.exists_depth (hSplit ▸ h) hFront
  rw [openBehind_of_depthThrough hDepth]
  exact Nat.succ_pos depth

theorem isClosed_of_group (hWhole : marks text = before ++ (group ++ after))
    (hOutermost : openBehind 0 before = 0) (hGroup : IsGroup group) :
    Range.IsClosed text ⟨before.length, before.length + group.length⟩ where
  nonempty := by
    obtain ⟨opening, body, closing, rfl, -⟩ := hGroup
    simp
  within n hStart hStop := by
    obtain ⟨inside, rfl⟩ := Nat.exists_eq_add_of_le (Nat.le_of_lt hStart)
    have hInside : inside < group.length := Nat.lt_of_add_lt_add_left hStop
    rw [depthAt_behind hWhole hOutermost, List.take_append_of_le_length (Nat.le_of_lt hInside)]
    exact hGroup.openBehind_take (Nat.pos_of_lt_add_right hStart) hInside
  ending := by
    rw [depthAt_behind hWhole hOutermost, List.take_left]
    exact hGroup.openBehind_eq

/-- Behind a parenthesis that is never closed, one is open. -/
theorem depthAt_pos_of_unclosed (hWhole : marks text = before ++ opening :: after)
    (hOutermost : openBehind 0 before = 0) (hOpen : opening.isBare '(')
    (hAfter : depthThrough 0 after ≠ none) (hn : before.length < n) : 0 < depthAt text n := by
  obtain ⟨n, rfl⟩ := Nat.exists_eq_add_of_lt hn
  have hFront : depthThrough 0 (after.take n) ≠ none := by
    intro hNone
    rw [← List.take_append_drop n after, depthThrough_append, hNone] at hAfter
    exact hAfter rfl
  obtain ⟨behind, hBehind⟩ := Option.ne_none_iff_exists'.mp hFront
  have hDepth : depthThrough 0 (opening :: after.take n) = some (behind + 1) := by
    rw [depthThrough, if_pos hOpen]
    exact depthThrough_add hBehind 1
  rw [Nat.add_assoc, depthAt_behind hWhole hOutermost, List.take_succ_cons,
    openBehind_of_depthThrough hDepth]
  exact Nat.succ_pos behind

theorem Range.IsClosed.stop_eq {start first second : Nat}
    (hFirst : Range.IsClosed text ⟨start, first⟩) (hSecond : Range.IsClosed text ⟨start, second⟩) :
    first = second := by
  rcases Nat.lt_trichotomy first second with hLt | rfl | hLt
  · exact absurd hFirst.ending (Nat.ne_of_gt (hSecond.within first hFirst.nonempty hLt))
  · rfl
  · exact absurd hSecond.ending (Nat.ne_of_gt (hFirst.within second hSecond.nonempty hLt))

theorem slice_text (range : Range) (text : Text) :
    range.slice text = plainText (range.slice (marks text)) := by
  have hText : text = (marks text).map Mark.char := (plainText_marks text).symm
  rw [Range.slice, Range.slice, plainText, List.map_take, List.map_drop, ← hText]

/-- The groups around fractions are told by depths. -/
theorem isSized_iff : range.IsSized text ↔ ∃ before group after,
    IsSizedGroup text before group after ∧
      range = ⟨before.length, before.length + group.length⟩ := by
  constructor
  · intro h
    obtain ⟨start, stop⟩ := range
    obtain ⟨before, opening, after, hWhole, rfl, hOpen⟩ := bareAt_iff.mp h.opening
    have hOutermost : openBehind 0 before = 0 := by
      have hDepth := h.outermost
      rwa [depthAt, hWhole, List.take_left] at hDepth
    have hClosed : depthThrough 0 after = none := by
      by_contra hAfter
      have hDepth := depthAt_pos_of_unclosed hWhole hOutermost hOpen hAfter h.closed.nonempty
      exact Nat.ne_of_gt hDepth h.closed.ending
    obtain ⟨body, closing, rest, rfl, hClose, hBody⟩ := exists_closing hClosed
    have hGroup : IsGroup (opening :: (body ++ [closing])) :=
      ⟨opening, body, closing, rfl, hOpen, hBody, hClose⟩
    have hCut : marks text = before ++ (opening :: (body ++ [closing]) ++ rest) := by
      simpa using hWhole
    obtain rfl := h.closed.stop_eq (isClosed_of_group hCut hOutermost hGroup)
    refine ⟨before, _, rest, ⟨hCut, hOutermost, hGroup, ?_⟩, rfl⟩
    have hFraction := h.fraction
    rwa [slice_text, hCut, slice_append] at hFraction
  · rintro ⟨before, group, after, h, rfl⟩
    obtain ⟨opening, body, closing, hEq, hOpen, hBody, hClose⟩ := h.isGroup
    have hOpening : marks text = before ++ opening :: (body ++ [closing] ++ after) := by
      rw [h.whole, hEq]
      rfl
    have hClosing : marks text = (before ++ opening :: body) ++ closing :: after := by
      rw [h.whole, hEq]
      simp
    refine ⟨bareAt_iff.mpr ⟨_, _, _, hOpening, rfl, hOpen⟩, ?_,
      bareAt_iff.mpr ⟨_, _, _, hClosing, ?_, hClose⟩,
      isClosed_of_group h.whole h.outermost h.isGroup, ?_⟩
    · rw [depthAt, h.whole, List.take_left]
      exact h.outermost
    · simp [hEq]
    · rw [slice_text, h.whole, slice_append]
      exact h.fraction

end Depths

/-! ## Passes over a group -/

/-- What the two passes over a group remember when they come to a mark of it: the parentheses that
are open, and their number. A parenthesis that closes always finds one open. -/
structure IsTracked (group : List Mark) : Prop where
  /-- The first pass remembers `openedBehind` what it has passed, -/
  resized : ∀ front rest sides, group = front ++ rest →
    resize [] sides group =
      resize [] sides front ++
        resize (openedBehind [] front) (sides.drop (front.countP isLoosePipe)) rest
  /-- and the second one `openBehind` it. -/
  measured : ∀ front rest, group = front ++ rest →
    pipeDepths 0 group = pipeDepths 0 front ++ pipeDepths (openBehind 0 front) rest
  closing : ∀ front mark back, group = front ++ mark :: back → mark.isBare ')' →
    openedBehind [] front ≠ [] ∧ 0 < openBehind 0 front
  ending : openedBehind [] group = []

theorem resize_append (opened : List Bool) (sides : List (Option Side)) (front rest : List Mark) :
    resize opened sides (front ++ rest) = resize opened sides front ++
      resize (openedBehind opened front) (sides.drop (front.countP isLoosePipe)) rest := by
  rw [← write_fit, fit_append, write_append, write_fit, write_fit]

theorem IsGroup.isTracked {group : List Mark} (h : IsGroup group) : IsTracked group where
  resized front rest sides hGroup := by
    rw [hGroup]
    exact resize_append [] sides front rest
  measured front rest hGroup := by
    rw [hGroup]
    exact pipeDepths_append 0 front rest
  closing front mark back hGroup hClose := by
    obtain ⟨depth, hDepth⟩ := (hGroup ▸ h).exists_depth_of_close hClose
    obtain ⟨opened, hOpened, hLength⟩ := @openedBehind_of_depthThrough [] [] _ _ hDepth
    rw [List.append_nil, List.append_nil] at hOpened
    refine ⟨?_, ?_⟩
    · rw [hOpened, ← List.length_pos_iff, hLength]
      exact Nat.succ_pos depth
    · rw [openBehind_of_depthThrough hDepth]
      exact Nat.succ_pos depth
  ending := openedBehind_balanced h.balanced []

/-! ## The ranges of a text -/

/-- The ranges are those of the groups around fractions of a text, told by its depths. -/
structure DetectsGroups (text : Text) (ranges : List Range) : Prop where
  ordered : ranges.Pairwise fun first second => first.stop ≤ second.start
  mem_iff : ∀ range, range ∈ ranges ↔ range.IsSized text
  /-- A parenthesis that closes nothing leaves the depth as it is, and stands in no range. -/
  stray : ∀ n, bareAt text ')' n → depthAt text n = 0 →
    depthAt text (n + 1) = 0 ∧ ∀ range ∈ ranges, range.stop ≤ n ∨ n < range.start
  /-- Behind a parenthesis that is never closed no range ends. -/
  unclosed : ∀ n, bareAt text '(' n → depthAt text n = 0 → (∀ m, n < m → 0 < depthAt text m) →
    ∀ range ∈ ranges, range.stop ≤ n

section Ranges

variable {text : Text} {range : Range} {n : Nat}

theorem depthAt_succ {mark : Mark} (h : (marks text)[n]? = some mark) :
    depthAt text (n + 1) = depthAfter (depthAt text n) mark := by
  rw [depthAt, List.take_add_one, h, openBehind_append]
  rfl

theorem depthAt_succ_of_stray (hClose : bareAt text ')' n) (hDepth : depthAt text n = 0) :
    depthAt text (n + 1) = 0 := by
  obtain ⟨mark, hMark, hBare⟩ := bareAt_iff_getElem?.mp hClose
  rw [depthAt_succ hMark, hDepth, depthAfter, isBare_of_ne hBare (by decide), if_pos hBare]
  rfl

/-- No place of a range but its first one has depth zero. -/
theorem Range.IsSized.eq_start (h : range.IsSized text) (hStart : range.start ≤ n)
    (hStop : n < range.stop) (hDepth : depthAt text n = 0) : n = range.start := by
  by_contra hNe
  have hWithin := h.closed.within n (Nat.lt_of_le_of_ne hStart (Ne.symm hNe)) hStop
  exact Nat.ne_of_gt hWithin hDepth

theorem not_bareAt_close (h : bareAt text '(' n) : bareAt text ')' n = false := by
  obtain ⟨mark, hMark, hBare⟩ := bareAt_iff_getElem?.mp h
  rw [bareAt, hMark, Option.any_some]
  exact isBare_of_ne hBare (by decide)

theorem detectsGroups_sizedRanges (text : Text) : DetectsGroups text (sizedRanges text) := by
  have hMem : ∀ range, range ∈ sizedRanges text ↔ range.IsSized text :=
    fun range => mem_sizedRanges.trans isSized_iff.symm
  refine ⟨pairwise_rangesFrom 0 (chunks text), hMem, ?_, ?_⟩
  · intro n hClose hDepth
    refine ⟨depthAt_succ_of_stray hClose hDepth, fun range hRange => ?_⟩
    have hSized := (hMem range).mp hRange
    by_contra hInside
    obtain ⟨hStop, hStart⟩ := not_or.mp hInside
    obtain rfl := hSized.eq_start (Nat.le_of_not_lt hStart) (Nat.lt_of_not_le hStop) hDepth
    rw [not_bareAt_close hSized.opening] at hClose
    cases hClose
  · intro n hOpen hDepth hUnclosed range hRange
    have hSized := (hMem range).mp hRange
    by_contra hBehind
    exact Nat.ne_of_gt (hUnclosed _ (Nat.lt_of_not_le hBehind)) hSized.closed.ending

/-- The stage writes a text by the ranges of its groups around fractions, which its depths tell, and
in each of them the passes over its parentheses find one open wherever one closes. -/
theorem sizedRanges_spec (text : Text) :
    (∀ pipes, size pipes text = sizeRanges pipes (marks text) 0 0 (sizedRanges text)) ∧
      DetectsGroups text (sizedRanges text) ∧
      ∀ range ∈ sizedRanges text, IsTracked (range.slice (marks text)) := by
  refine ⟨fun pipes => size_eq_sizeRanges pipes text, detectsGroups_sizedRanges text, ?_⟩
  intro range hRange
  obtain ⟨before, group, after, hGroup, rfl⟩ := mem_sizedRanges.mp hRange
  rw [hGroup.whole, slice_append]
  exact hGroup.isGroup.isTracked

end Ranges

/-- Parentheses that close nothing, a group without a fraction, a group around one with an escaped
parenthesis, and a fraction behind a parenthesis that is never closed. -/
def strayGroups : Text := ")(a)(\\frac12(b\\)))|)(\\frac(c)".toList

theorem sizedRanges_spec_strayGroups :
    sizedRanges strayGroups = [⟨4, 18⟩] ∧ Range.IsSized strayGroups ⟨4, 18⟩ ∧
      IsTracked (Range.slice ⟨4, 18⟩ (marks strayGroups)) ∧ depthAt strayGroups 20 = 0 := by
  have hRanges : sizedRanges strayGroups = [⟨4, 18⟩] := by decide +kernel
  have hMem : ⟨4, 18⟩ ∈ sizedRanges strayGroups := by
    rw [hRanges]
    exact List.mem_cons_self
  obtain ⟨-, hDetects, hTracked⟩ := sizedRanges_spec strayGroups
  have hStray := hDetects.stray 19 (by decide +kernel) (by decide +kernel)
  exact ⟨hRanges, (hDetects.mem_iff _).mp hMem, hTracked _ hMem, hStray.1⟩

end Formulary.Delimiter
