import Formulary.Proofs.Delimiter.Place
import Mathlib.Data.Nat.Count

/-!
# Which pipes are sized

A candidate is a loose pipe in a sized group. No other pipe is sized. Which candidates are, and on
which side, is a matter of counting:

* at one parenthesis depth of one group, those before it and all of them, when pipes are scoped;
* in all sized groups of the text, those before it, when only the first pair is sized.

`sizesPipes_sideAt` says so for each way of sizing pipes. The sides within a group are lists that
`pipeSides` makes of the depths of its pipes, so the counts are read off these depths
(`count_pipeDepths`) and off the chunks of the text (`count_isCandidate_place`).
-/

namespace Formulary.Delimiter

/-! ## Candidates -/

/-- The character with this number is a loose pipe in a sized group. -/
def IsCandidate (text : Text) (n : Nat) : Prop :=
  ∃ before front mark back after, IsSizedGroup text before (front ++ mark :: back) after ∧
    isLoosePipe mark ∧ n = (before ++ front).length

/-- For each character of a list of chunks, whether it is a candidate. -/
def candidateFlags (pieces : List Chunk) : List Bool :=
  List.zipWith (fun place mark => place && isLoosePipe mark) (pieces.flatMap Chunk.places)
    (pieces.flatMap Chunk.marks)

section Candidates

variable {text : Text} {before front back after : List Mark} {mark : Mark}

theorem getElem?_candidateFlags {pieces : List Chunk} {n : Nat} :
    (candidateFlags pieces)[n]? = some true ↔ (pieces.flatMap Chunk.places)[n]? = some true ∧
      ∃ mark, (pieces.flatMap Chunk.marks)[n]? = some mark ∧ isLoosePipe mark := by
  rw [candidateFlags, List.getElem?_zipWith]
  cases (pieces.flatMap Chunk.places)[n]? <;> cases (pieces.flatMap Chunk.marks)[n]? <;> simp

theorem isCandidate_iff {n : Nat} :
    IsCandidate text n ↔ (candidateFlags (chunks text))[n]? = some true := by
  rw [getElem?_candidateFlags, (chunks_cut text).flatten]
  constructor
  · rintro ⟨before, front, mark, back, after, hGroup, hPipe, rfl⟩
    refine ⟨?_, mark, getElem?_marks hGroup, hPipe⟩
    change (sizedPlaces text)[(before ++ front).length]? = some true
    have hLength : ((chunksFrom 0 [] before).flatMap Chunk.places).length = before.length := by
      rw [length_flatMap_places, flatten_chunksFrom]
    rw [sizedPlaces_eq hGroup, List.getElem?_append_right (by simp [hLength])]
    simp [hLength]
  · rintro ⟨hPlace, mark, hMark, hPipe⟩
    obtain ⟨before, front, other, back, after, hGroup, rfl⟩ := exists_of_sizedPlaces hPlace
    rw [getElem?_marks hGroup] at hMark
    cases hMark
    exact ⟨before, front, mark, back, after, hGroup, hPipe, rfl⟩

instance (text : Text) : DecidablePred (IsCandidate text) :=
  fun n => decidable_of_iff ((candidateFlags (chunks text))[n]? = some true) isCandidate_iff.symm

theorem count_isCandidate (text : Text) (n : Nat) :
    Nat.count (IsCandidate text) n = ((candidateFlags (chunks text)).take n).count true := by
  induction n with
  | zero => rfl
  | succ n ih =>
    rw [Nat.count_succ, ih, List.take_add_one, List.count_append, if_congr isCandidate_iff rfl rfl]
    cases (candidateFlags (chunks text))[n]? with
    | none => rfl
    | some flag => cases flag <;> rfl

theorem candidateFlags_append (first second : List Chunk) :
    candidateFlags (first ++ second) = candidateFlags first ++ candidateFlags second := by
  rw [candidateFlags, List.flatMap_append, List.flatMap_append,
    List.zipWith_append (length_flatMap_places first)]
  rfl

theorem length_candidateFlags (pieces : List Chunk) :
    (candidateFlags pieces).length = (pieces.flatMap Chunk.marks).length := by
  rw [candidateFlags, List.length_zipWith, length_flatMap_places, Nat.min_self]

theorem candidateFlags_loose (marked : List Mark) :
    candidateFlags [.loose marked] = marked.map fun _ => false := by
  rw [candidateFlags, List.flatMap_singleton, List.flatMap_singleton, Chunk.places, Chunk.marks,
    List.zipWith_map_left, List.zipWith_self]
  rfl

theorem candidateFlags_group (marked : List Mark) :
    candidateFlags [.group marked] =
      marked.map fun mark => hasFraction marked && isLoosePipe mark := by
  rw [candidateFlags, List.flatMap_singleton, List.flatMap_singleton, Chunk.places, Chunk.marks,
    List.zipWith_map_left, List.zipWith_self]

theorem count_candidateFlags (pieces : List Chunk) :
    (candidateFlags pieces).count true = pipeCount pieces := by
  induction pieces with
  | nil => rfl
  | cons chunk rest ih =>
    rw [← List.singleton_append, candidateFlags_append, List.count_append, ih]
    cases chunk with
    | loose marked =>
      rw [candidateFlags_loose, List.count, List.countP_map]
      simp [Function.comp_def, pipeCount]
    | group marked =>
      rw [candidateFlags_group, List.count, List.countP_map, List.singleton_append, pipeCount,
        length_pipeDepths]
      cases hasFraction marked <;> simp [Function.comp_def]

/-- The candidates of a text are the loose pipes of its groups around fractions. -/
theorem count_isCandidate_text (text : Text) :
    Nat.count (IsCandidate text) text.length = pipeCount (chunks text) := by
  have hLength : (candidateFlags (chunks text)).length = text.length := by
    rw [length_candidateFlags, (chunks_cut text).flatten, ← List.length_map Mark.char]
    exact congrArg List.length (plainText_marks text)
  rw [count_isCandidate, ← hLength, List.take_length, count_candidateFlags]

/-- Before a place of a sized group stand the candidates of the text before the group, and the loose
pipes of the group before the place. -/
theorem count_isCandidate_place (h : IsSizedGroup text before (front ++ mark :: back) after) :
    Nat.count (IsCandidate text) (before ++ front).length =
      pipeCount (chunksFrom 0 [] before) + front.countP isLoosePipe := by
  have hBefore : (candidateFlags (chunksFrom 0 [] before)).length = before.length := by
    rw [length_candidateFlags, flatten_chunksFrom]
  have hFlags : candidateFlags (chunks text) =
      candidateFlags (chunksFrom 0 [] before) ++ (front.map isLoosePipe ++
        (isLoosePipe mark :: (back.map isLoosePipe ++
          candidateFlags (chunksFrom 0 [] after)))) := by
    rw [h.chunks_eq, candidateFlags_append, ← List.singleton_append, candidateFlags_append,
      candidateFlags_group, h.fraction]
    simp
  rw [count_isCandidate, hFlags, ← List.append_assoc, List.take_left' (by simp [hBefore]),
    List.count_append, count_candidateFlags, List.count, List.countP_map]
  simp [Function.comp_def]

end Candidates

/-! ## Depths of pipes -/

/-- The mark of a stretch with this number is a loose pipe at a depth of parentheses. -/
def IsPipeAt (depth : Nat) (marked : List Mark) (n : Nat) : Prop :=
  marked[n]?.any isLoosePipe ∧ openBehind 0 (marked.take n) = depth

instance (depth : Nat) (marked : List Mark) : DecidablePred (IsPipeAt depth marked) :=
  fun n => inferInstanceAs
    (Decidable (marked[n]?.any isLoosePipe = true ∧ openBehind 0 (marked.take n) = depth))

/-- How many loose pipes of a stretch stand at a depth of parentheses. -/
def pipesAt (depth : Nat) (marked : List Mark) : Nat :=
  Nat.count (IsPipeAt depth marked) marked.length

theorem pipeDepths_append (depth : Nat) (first second : List Mark) :
    pipeDepths depth (first ++ second) =
      pipeDepths depth first ++ pipeDepths (openBehind depth first) second := by
  induction first generalizing depth with
  | nil => rfl
  | cons mark rest ih =>
    rw [List.cons_append, pipeDepths_cons, pipeDepths_cons, ih, List.append_assoc]
    rfl

theorem pipeDepths_singleton (depth : Nat) (mark : Mark) :
    pipeDepths depth [mark] = if isLoosePipe mark then [depth] else [] := by
  rw [pipeDepths_cons]
  apply List.append_nil

theorem isPipeAt_append {depth n : Nat} {first : List Mark} (second : List Mark)
    (hn : n < first.length) : IsPipeAt depth (first ++ second) n ↔ IsPipeAt depth first n := by
  rw [IsPipeAt, IsPipeAt, List.getElem?_append_left hn,
    List.take_append_of_le_length (Nat.le_of_lt hn)]

/-- The depths of the pipes of a stretch count these pipes. -/
theorem count_pipeDepths (depth : Nat) (marked : List Mark) :
    (pipeDepths 0 marked).count depth = pipesAt depth marked := by
  induction marked using List.reverseRecOn with
  | nil => rfl
  | append_singleton front mark ih =>
    have hFront : Nat.count (IsPipeAt depth (front ++ [mark])) front.length = pipesAt depth front :=
      Nat.le_antisymm (Nat.count_mono_left fun _ hn => (isPipeAt_append _ hn).mp)
        (Nat.count_mono_left fun _ hn => (isPipeAt_append _ hn).mpr)
    have hLast : IsPipeAt depth (front ++ [mark]) front.length ↔
        isLoosePipe mark ∧ openBehind 0 front = depth := by
      rw [IsPipeAt, List.take_left, List.getElem?_concat_length]
      rfl
    rw [pipesAt, List.length_append, List.length_singleton, Nat.count_succ, hFront, ← ih,
      pipeDepths_append, List.count_append, pipeDepths_singleton, if_congr hLast rfl rfl]
    cases isLoosePipe mark <;> simp [List.count_singleton]

/-! ## Sides of pipes -/

/-- The side of a pipe, by the pipes of its depth before it. -/
theorem getElem?_scopedSides (all passed first : List Nat) (depth : Nat) (second : List Nat) :
    (scopedSides all passed (first ++ depth :: second))[first.length]? =
      some (if all.count depth % 2 = 0 then
        some (if (first.count depth + passed.count depth) % 2 = 0 then .left else .right)
      else none) := by
  induction first generalizing passed with
  | nil => rw [List.nil_append, scopedSides, List.length_nil, List.count_nil, Nat.zero_add]; rfl
  | cons other first ih =>
    have hCount : first.count depth + (other :: passed).count depth =
        (other :: first).count depth + passed.count depth := by
      rw [List.count_cons, List.count_cons]
      omega
    rw [List.cons_append, scopedSides, List.length_cons, List.getElem?_cons_succ, ih, hCount]

/-- The side of a pipe, by the pipes before it. -/
theorem getElem?_firstPairSides {passed count n : Nat} (hn : n < count) :
    (firstPairSides passed count)[n]? = some ([Side.left, Side.right][passed + n]?) := by
  rw [firstPairSides, List.getElem?_map, List.getElem?_range' hn, Nat.one_mul, Option.map_some]
  rcases passed + n with _ | _ | rank <;> rfl

section Places

variable {text : Text} {before front back after : List Mark} {mark : Mark}

/-- The depths of the pipes of a group, around one of them. -/
theorem exists_pipeDepths_eq (front back : List Mark) (h : isLoosePipe mark) :
    ∃ second, pipeDepths 0 (front ++ mark :: back) =
      pipeDepths 0 front ++ openBehind 0 front :: second := by
  have hHere := pipeDepths_append (openBehind 0 front) [mark] back
  rw [pipeDepths_singleton, if_pos h] at hHere
  exact ⟨_, by rw [pipeDepths_append, ← List.singleton_append, hHere]; rfl⟩

theorem sideAt_of_isLoosePipe (pipes : PipeSizing)
    (hGroup : IsSizedGroup text before (front ++ mark :: back) after) (h : isLoosePipe mark) :
    sideAt pipes text (before ++ front).length =
      (pipeSides pipes (pipeCount (chunksFrom 0 [] before))
        (pipeDepths 0 (front ++ mark :: back)))[(pipeDepths 0 front).length]?.getD none := by
  rw [sideAt_eq pipes hGroup, nextSide_of_isLoosePipe h, List.head?_drop, length_pipeDepths]

theorem sideAt_scoped (hGroup : IsSizedGroup text before (front ++ mark :: back) after)
    (h : isLoosePipe mark) :
    sideAt .scoped text (before ++ front).length =
      if pipesAt (openBehind 0 front) (front ++ mark :: back) % 2 = 0 then
        some (if pipesAt (openBehind 0 front) front % 2 = 0 then .left else .right)
      else none := by
  obtain ⟨second, hDepths⟩ := exists_pipeDepths_eq front back h
  rw [sideAt_of_isLoosePipe .scoped hGroup h, ← count_pipeDepths, ← count_pipeDepths, pipeSides,
    hDepths, getElem?_scopedSides, List.count_nil, Nat.add_zero, Option.getD_some]

theorem sideAt_firstPair (hGroup : IsSizedGroup text before (front ++ mark :: back) after)
    (h : isLoosePipe mark) :
    sideAt .firstPair text (before ++ front).length =
      [Side.left, Side.right][Nat.count (IsCandidate text) (before ++ front).length]? := by
  obtain ⟨second, hDepths⟩ := exists_pipeDepths_eq front back h
  have hRank : (pipeDepths 0 front).length < (pipeDepths 0 (front ++ mark :: back)).length := by
    rw [hDepths, List.length_append, List.length_cons]
    omega
  rw [sideAt_of_isLoosePipe .firstPair hGroup h, count_isCandidate_place hGroup, pipeSides,
    getElem?_firstPairSides hRank, Option.getD_some, length_pipeDepths]

theorem sideAt_off (hGroup : IsSizedGroup text before (front ++ mark :: back) after)
    (h : isLoosePipe mark) : sideAt .off text (before ++ front).length = none := by
  rw [sideAt_of_isLoosePipe .off hGroup h, pipeSides, List.getElem?_map]
  cases (pipeDepths 0 (front ++ mark :: back))[(pipeDepths 0 front).length]? <;> rfl

/-- No pipe is sized but candidates. -/
theorem sideAt_of_not_isCandidate {n : Nat} (pipes : PipeSizing) (hPipe : text[n]? = some '|')
    (h : ¬ IsCandidate text n) : sideAt pipes text n = none := by
  by_contra hSide
  obtain ⟨before, front, mark, back, after, hGroup, rfl, -, -⟩ := exists_of_sideAt hSide
  have hChar : mark.char = '|' := by
    rw [← plainText_marks text, plainText, List.getElem?_map, getElem?_marks hGroup] at hPipe
    exact Option.some.inj hPipe
  have hNeutral : IsNeutral mark := by simp [IsNeutral, Mark.isBare, hChar]
  have hNotLoose : isLoosePipe mark = false := by
    rw [Bool.eq_false_iff]
    intro hLoose
    exact h ⟨before, front, mark, back, after, hGroup, hLoose, rfl⟩
  rw [sideAt_eq pipes hGroup, nextSide_of_isNeutral hNeutral hNotLoose] at hSide
  exact hSide rfl

end Places

/-- The sides of the pipes of a text, for each way of sizing pipes. -/
structure SizesPipes (text : Text) (side : PipeSizing → Nat → Option Side) : Prop where
  /-- No pipe is sized but candidates. -/
  other : ∀ pipes n, text[n]? = some '|' → ¬ IsCandidate text n → side pipes n = none
  /-- The candidates of one depth of one group take the two sides in turn when they are even in
  number, and none otherwise. -/
  byDepth : ∀ before front mark back after,
    IsSizedGroup text before (front ++ mark :: back) after → isLoosePipe mark →
      side .scoped (before ++ front).length =
        if pipesAt (openBehind 0 front) (front ++ mark :: back) % 2 = 0 then
          some (if pipesAt (openBehind 0 front) front % 2 = 0 then .left else .right)
        else none
  /-- The first candidate of the text takes the left side, the second one the right side, and the
  others none. -/
  firstPair : ∀ n, IsCandidate text n →
    side .firstPair n = [Side.left, Side.right][Nat.count (IsCandidate text) n]?
  off : ∀ n, text[n]? = some '|' → side .off n = none

theorem sizesPipes_sideAt (text : Text) : SizesPipes text fun pipes => sideAt pipes text where
  other pipes _ hPipe h := sideAt_of_not_isCandidate pipes hPipe h
  byDepth _ _ _ _ _ hGroup h := sideAt_scoped hGroup h
  firstPair n h := by
    obtain ⟨before, front, mark, back, after, hGroup, hLoose, rfl⟩ := h
    exact sideAt_firstPair hGroup hLoose
  off n hPipe := by
    by_cases h : IsCandidate text n
    · obtain ⟨before, front, mark, back, after, hGroup, hLoose, rfl⟩ := h
      exact sideAt_off hGroup hLoose
    · exact sideAt_of_not_isCandidate .off hPipe h

/-- What sizing does to pipes. In sized groups it puts a command before loose pipes: before those of
each depth where they are even in number, before the first two of the text, or before none. -/
theorem size_pipes (text : Text) :
    (∀ pipes, size pipes text = write (fitText pipes text) ∧ bareText (fitText pipes text) = text) ∧
      SizesPipes text fun pipes => sideAt pipes text :=
  ⟨fun pipes => ⟨(write_fitText pipes text).symm, bareText_fitText pipes text⟩,
    sizesPipes_sideAt text⟩

end Formulary.Delimiter
