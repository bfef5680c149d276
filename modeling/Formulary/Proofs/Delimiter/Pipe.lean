import Formulary.Proofs.Delimiter.Fit

/-!
# Sized pipes

`sizedPipes` counts the pipes of a text that directly follow the sizing command of a side. Where
only the first pair of pipes is sized, one run of the stage adds at most one of each side
(`sizedPipes_size_firstPair`): of the loose pipes in groups around fractions, in the whole text, the
first gets the left side and the second the right side. A pipe that has its size is not loose, so it
is counted before and behind the run.
-/

namespace Formulary.Delimiter

/-! ## Counting -/

/-- The mark is a pipe behind the sizing command of a side. -/
def isSizedPipe (side : Side) (mark : Mark) : Bool := mark.char = '|' && follows mark side.name

/-- How many pipes behind the sizing command of a side a text has that starts behind a lead. -/
def sizedPipesFrom (side : Side) (lead : Lead) (text : Text) : Nat :=
  (marksFrom lead text).countP (isSizedPipe side)

/-- How many pipes of a text stand behind the sizing command of a side. -/
def sizedPipes (side : Side) (text : Text) : Nat := sizedPipesFrom side .plain text

variable {side : Side} {lead : Lead} {text : Text}

theorem sizedPipesFrom_cons (side : Side) (lead : Lead) (c : Char) (rest : Text) :
    sizedPipesFrom side lead (c :: rest) =
      sizedPipesFrom side (lead.after c) rest + if isSizedPipe side ⟨lead, c⟩ then 1 else 0 :=
  List.countP_cons

theorem sizedPipesFrom_append (side : Side) (lead : Lead) (first second : Text) :
    sizedPipesFrom side lead (first ++ second) =
      sizedPipesFrom side lead first + sizedPipesFrom side (lead.through first) second := by
  rw [sizedPipesFrom, marksFrom_append, List.countP_append]
  rfl

/-! ## Pipes that are given a side -/

/-- The pipe is given a side. -/
def Fitted.isGiven (side : Side) (one : Fitted) : Bool :=
  one.mark.char = '|' && one.side = some side

/-- Only a loose pipe is given a side. -/
def Fitted.IsFresh (one : Fitted) : Prop :=
  one.mark.char = '|' → one.side ≠ none → isLoosePipe one.mark

theorem isFresh_nextSide (opened : List Bool) (sides : List (Option Side)) (mark : Mark) :
    Fitted.IsFresh ⟨mark, nextSide opened sides mark⟩ := by
  intro (hChar : mark.char = '|') hSide
  have hNeutral : IsNeutral mark := by simp [IsNeutral, Mark.isBare, hChar]
  change isLoosePipe mark = true
  rw [← Bool.not_eq_false]
  intro hPipe
  exact hSide (nextSide_of_isNeutral hNeutral hPipe)

theorem isFresh_of_mem_fitChunks {pipes : PipeSizing} {passed : Nat} {pieces : List Chunk} :
    ∀ one ∈ fitChunks pipes passed pieces, one.IsFresh :=
  forall_mem_fitChunks (fun _ _ hSide => absurd rfl hSide) isFresh_nextSide

theorem isSizedPipe_of_isLoosePipe {mark : Mark} (h : isLoosePipe mark) :
    isSizedPipe side mark = false := by
  have hNone := (Bool.and_eq_true_iff.mp h).2
  rw [Bool.not_eq_true', List.any_eq_false] at hNone
  have hName : side.name ∈ sizingCommands := by cases side <;> decide
  have hFollows : follows mark side.name = false := by simpa using hNone _ hName
  rw [isSizedPipe, hFollows, Bool.and_false]

/-- A mark becomes one more sized pipe when it is a pipe that is given the side. -/
theorem countP_grown {one : Fitted} (hFresh : one.IsFresh) :
    one.grown.countP (isSizedPipe side) =
      (if isSizedPipe side one.mark then 1 else 0) + if one.isGiven side then 1 else 0 := by
  obtain ⟨mark, given⟩ := one
  cases given with
  | none => simp [Fitted.isGiven]
  | some given =>
    have hAdded : (Fitted.added ⟨mark, some given⟩).countP (isSizedPipe side) = 0 := by
      rw [List.countP_eq_zero]
      intro other hOther
      have hMem : other.char ∈ given.command := char_mem_of_mem_marksFrom hOther
      have hNone : '|' ∉ given.command := by cases given <;> decide
      have hChar : other.char ≠ '|' := fun hPipe => hNone (hPipe ▸ hMem)
      simp [isSizedPipe, hChar]
    rw [Fitted.grown, List.countP_append, hAdded, List.countP_singleton, Nat.zero_add]
    by_cases hPipe : mark.char = '|'
    · have hLoose : isLoosePipe mark := hFresh hPipe (by simp)
      rw [isSizedPipe_of_isLoosePipe hLoose]
      simp only [isSizedPipe, Fitted.isGiven, Fitted.kept, hPipe, follows, decide_true,
        Bool.true_and, Bool.false_eq_true, if_false, Nat.zero_add, Lead.word.injEq,
        Option.some.injEq]
      cases given <;> cases side <;> decide
    · simp [isSizedPipe, Fitted.isGiven, Fitted.kept, hPipe]

theorem sizedPipes_size (side : Side) (pipes : PipeSizing) (text : Text) :
    sizedPipes side (size pipes text) =
      sizedPipes side text + (fitText pipes text).countP (Fitted.isGiven side) := by
  have hFresh : ∀ one ∈ fitText pipes text, one.IsFresh := isFresh_of_mem_fitChunks
  change (marks (size pipes text)).countP _ = (marks text).countP _ + _
  rw [marks_size, ← map_mark_fitText pipes text]
  generalize fitText pipes text = fitted at hFresh ⊢
  induction fitted with
  | nil => rfl
  | cons one rest ih =>
    obtain ⟨hOne, hRest⟩ := List.forall_mem_cons.mp hFresh
    rw [List.flatMap_cons, List.countP_append, countP_grown hOne, ih hRest, List.map_cons,
      List.countP_cons, List.countP_cons]
    omega

/-! ## The first pair -/

/-- How many loose pipes stand before the one that gets a side, when only the first pair does. -/
def Side.rank : Side → Nat
  | .left => 0
  | .right => 1

/-- How many loose pipes stand in the groups around fractions. -/
def pipeCount : List Chunk → Nat
  | [] => 0
  | .loose _ :: rest => pipeCount rest
  | .group marked :: rest =>
    (if hasFraction marked then (pipeDepths 0 marked).length else 0) + pipeCount rest

theorem length_pipeDepths (depth : Nat) (marked : List Mark) :
    (pipeDepths depth marked).length = marked.countP isLoosePipe := by
  induction marked generalizing depth with
  | nil => rfl
  | cons mark rest ih =>
    rw [pipeDepths_cons, List.length_append, ih, List.countP_cons, Nat.add_comm]
    cases isLoosePipe mark <;> rfl

/-- The loose pipes of a group are given the sides in order. -/
theorem countP_isGiven_fit {opened : List Bool} {sides : List (Option Side)} {marked : List Mark}
    (hLength : sides.length = marked.countP isLoosePipe) :
    (fit opened sides marked).countP (Fitted.isGiven side) = sides.count (some side) := by
  induction marked generalizing opened sides with
  | nil =>
    rw [List.length_eq_zero_iff.mp hLength]
    rfl
  | cons mark rest ih =>
    rw [fit_cons, List.countP_cons]
    rw [List.countP_cons] at hLength
    cases hPipe : isLoosePipe mark with
    | false =>
      have hNot : Fitted.isGiven side ⟨mark, nextSide opened sides mark⟩ = false := by
        rw [Bool.eq_false_iff]
        intro hGiven
        obtain ⟨hChar, hSide⟩ : mark.char = '|' ∧ nextSide opened sides mark = some side := by
          simpa [Fitted.isGiven] using hGiven
        have hLoose := isFresh_nextSide opened sides mark hChar (by simp [hSide])
        exact absurd hLoose (by simp [hPipe])
      rw [hPipe] at hLength
      rw [hNot]
      exact ih hLength
    | true =>
      have hChar : mark.char = '|' := by simp_all [isLoosePipe, Mark.isBare]
      rw [hPipe] at hLength
      cases sides with
      | nil => cases hLength
      | cons given sides =>
        rw [nextSide_of_isLoosePipe hPipe, if_pos rfl, List.tail_cons, ih (Nat.succ.inj hLength),
          List.count_cons]
        by_cases hGiven : given = some side <;> simp [Fitted.isGiven, hChar, hGiven]

theorem countP_isGiven_unfitted (marked : List Mark) :
    (unfitted marked).countP (Fitted.isGiven side) = 0 := by
  rw [List.countP_eq_zero]
  rintro ⟨mark, given⟩ hMem
  obtain ⟨-, rfl⟩ := mem_unfitted.mp hMem
  simp [Fitted.isGiven]

/-- Of so many pipes behind others, one gets the side when its turn comes. -/
theorem count_firstPairSides (side : Side) (passed count : Nat) :
    (firstPairSides passed count).count (some side) =
      if passed ≤ side.rank ∧ side.rank < passed + count then 1 else 0 := by
  induction count generalizing passed with
  | zero =>
    rw [if_neg (by omega)]
    rfl
  | succ count ih =>
    rcases passed with _ | _ | passed
    · have hCons : firstPairSides 0 (count + 1) = some .left :: firstPairSides 1 count := rfl
      rw [hCons, List.count_cons, ih]
      cases side <;> simp only [Side.rank] <;> grind
    · have hCons : firstPairSides 1 (count + 1) = some .right :: firstPairSides 2 count := rfl
      rw [hCons, List.count_cons, ih]
      cases side <;> simp only [Side.rank] <;> grind
    · have hCons : firstPairSides (passed + 2) (count + 1) =
          none :: firstPairSides (passed + 3) count := rfl
      rw [hCons, List.count_cons, ih]
      cases side <;> simp only [Side.rank] <;> grind

theorem countP_isGiven_fitChunks (side : Side) (passed : Nat) (pieces : List Chunk) :
    (fitChunks .firstPair passed pieces).countP (Fitted.isGiven side) =
      if passed ≤ side.rank ∧ side.rank < passed + pipeCount pieces then 1 else 0 := by
  induction pieces generalizing passed with
  | nil =>
    rw [if_neg (by simp [pipeCount])]
    rfl
  | cons chunk rest ih =>
    cases chunk with
    | loose marked =>
      rw [fitChunks, List.countP_append, countP_isGiven_unfitted, ih, Nat.zero_add, pipeCount]
    | group marked =>
      simp only [fitChunks, pipeCount]
      split
      · have hLength : (firstPairSides passed (pipeDepths 0 marked).length).length =
            marked.countP isLoosePipe := by simp [firstPairSides, length_pipeDepths]
        rw [List.countP_append, ih]
        simp only [pipeSides]
        rw [countP_isGiven_fit hLength, count_firstPairSides]
        split <;> split <;> split <;> omega
      · rw [List.countP_append, countP_isGiven_unfitted, ih, Nat.zero_add, Nat.zero_add]

/-- Where only the first pair of pipes is sized, one run of the stage adds one pipe on the left when
a loose pipe stands in a group around a fraction, and one on the right when there are two. -/
theorem sizedPipes_size_firstPair (side : Side) (text : Text) :
    sizedPipes side (size .firstPair text) =
      sizedPipes side text + if side.rank < pipeCount (chunks text) then 1 else 0 := by
  rw [sizedPipes_size, fitText, countP_isGiven_fitChunks, Nat.zero_add]
  simp

end Formulary.Delimiter
