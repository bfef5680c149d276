import Formulary.Proofs.Markup.Nest
import Mathlib.Data.List.Induction

/-!
# Pairs of pipes

Within a sized group pipes are told apart by the depth of parentheses only: where the pipes of a
depth are even in number, each odd one opens and the next one closes (`fences`). Two pipes that
become a pair so enclose some part of the group (`IsPair`), and the group stays nested exactly when
each of these parts is nested by itself (`isNested_fences_iff`).

The proof reads the fenced word from the left. A pipe that is on top of the stack opens a pair whose
second pipe is still to come (`exists_of_pending`), so a bracket that closes there lies in the part
enclosed by the pair and has its partner outside.
-/

namespace Formulary

/-! ## Depths -/

/-- The depth of parentheses behind a sign. -/
def Sign.depthBehind (depth : Nat) : Sign Bracket → Nat
  | .opening .paren => depth + 1
  | .closing .paren => depth - 1
  | _ => depth

/-- The depth of parentheses behind a word. -/
def depthBehind (depth : Nat) (word : List (Sign Bracket)) : Nat :=
  word.foldl Sign.depthBehind depth

/-- The depth of a pipe. -/
def Sign.levels (depth : Nat) : Sign Bracket → List Nat
  | .pipe => [depth]
  | _ => []

/-- The depth of every pipe, in order. -/
def pipeLevels : Nat → List (Sign Bracket) → List Nat
  | _, [] => []
  | depth, sign :: rest => sign.levels depth ++ pipeLevels (sign.depthBehind depth) rest

variable {first second word : List (Sign Bracket)} {depth height : Nat}

theorem depthBehind_append (depth : Nat) (first second : List (Sign Bracket)) :
    depthBehind depth (first ++ second) = depthBehind (depthBehind depth first) second :=
  List.foldl_append

theorem pipeLevels_append (depth : Nat) (first second : List (Sign Bracket)) :
    pipeLevels depth (first ++ second) =
      pipeLevels depth first ++ pipeLevels (depthBehind depth first) second := by
  induction first generalizing depth with
  | nil => rfl
  | cons sign rest ih =>
    rw [List.cons_append, pipeLevels, pipeLevels, ih, List.append_assoc]
    rfl

theorem depthBehind_of_nest {stack next : List Bracket} (h : nest stack word = some next) :
    depthBehind (stack.count .paren) word = next.count .paren := by
  induction word generalizing stack with
  | nil =>
    cases h
    rfl
  | cons sign rest ih =>
    obtain ⟨between, hStep, hRest⟩ := nest_cons_eq_some h
    rw [← ih hRest, depthBehind, List.foldl_cons]
    cases sign with
    | opening bracket =>
      cases hStep
      cases bracket <;> simp [Sign.depthBehind, depthBehind]
    | closing bracket =>
      obtain rfl := step_closing_eq_some hStep
      cases bracket <;> simp [Sign.depthBehind, depthBehind]
    | pipe =>
      cases hStep
      rfl
    | command =>
      cases hStep
      rfl

theorem IsNested.depthBehind_eq (h : IsNested word) (depth : Nat) :
    depthBehind depth word = depth := by
  have hDepth := depthBehind_of_nest (h.nest_eq (List.replicate depth .paren))
  rwa [List.count_replicate_self] at hDepth

/-- A depth at which pipes stand has a first one. -/
theorem exists_first (h : height ∈ pipeLevels depth word) :
    ∃ before after, word = before ++ .pipe :: after ∧ depthBehind depth before = height ∧
      height ∉ pipeLevels depth before := by
  induction word generalizing depth with
  | nil => cases h
  | cons sign rest ih =>
    by_cases hHere : height ∈ sign.levels depth
    · cases sign with
      | pipe => exact ⟨[], rest, rfl, (List.mem_singleton.mp hHere).symm, List.not_mem_nil⟩
      | opening bracket => cases hHere
      | closing bracket => cases hHere
      | command => cases hHere
    · have hLater := (List.mem_append.mp h).resolve_left hHere
      obtain ⟨before, after, rfl, hDepth, hNone⟩ := ih hLater
      refine ⟨sign :: before, after, rfl, hDepth, ?_⟩
      rw [pipeLevels, List.mem_append]
      exact not_or.mpr ⟨hHere, hNone⟩

/-- A depth at which pipes stand has a last one. -/
theorem exists_last (h : height ∈ pipeLevels depth word) :
    ∃ before after, word = before ++ .pipe :: after ∧ depthBehind depth before = height ∧
      height ∉ pipeLevels height after := by
  induction word generalizing depth with
  | nil => cases h
  | cons sign rest ih =>
    by_cases hLater : height ∈ pipeLevels (sign.depthBehind depth) rest
    · obtain ⟨before, after, rfl, hDepth, hNone⟩ := ih hLater
      exact ⟨sign :: before, after, rfl, hDepth, hNone⟩
    · have hHere := (List.mem_append.mp h).resolve_right hLater
      cases sign with
      | pipe =>
        obtain rfl := List.mem_singleton.mp hHere
        exact ⟨[], rest, rfl, rfl, hLater⟩
      | opening bracket => cases hHere
      | closing bracket => cases hHere
      | command => cases hHere

/-! ## Fences -/

/-- A bracket of a group whose pipes are brackets, too. -/
inductive Fence where
  | plain (bracket : Bracket)
  /-- A pipe of a pair, with the depth at which it stands. -/
  | pipe (depth : Nat)
  deriving DecidableEq, Repr, Inhabited

/-- Pair a pipe, given the depths of all pipes and of those before it. -/
def Sign.fenced (all passed : List Nat) (depth : Nat) : Sign Bracket → Sign Fence
  | .opening bracket => .opening (.plain bracket)
  | .closing bracket => .closing (.plain bracket)
  | .pipe =>
    if all.count depth % 2 = 0 then
      if passed.count depth % 2 = 0 then .opening (.pipe depth) else .closing (.pipe depth)
    else .pipe
  | .command => .command

/-- Pair the pipes of a word. -/
def fences (all : List Nat) : List Nat → Nat → List (Sign Bracket) → List (Sign Fence)
  | _, _, [] => []
  | passed, depth, sign :: rest =>
    sign.fenced all passed depth ::
      fences all (sign.levels depth ++ passed) (sign.depthBehind depth) rest

/-- Leave out the pipes. -/
def Fence.bracket? : Fence → Option Bracket
  | .plain bracket => some bracket
  | .pipe _ => none

variable {all passed : List Nat}

theorem fenced_opening (hAll : all.count depth % 2 = 0) (hPassed : passed.count depth % 2 = 0) :
    Sign.fenced all passed depth .pipe = .opening (.pipe depth) := by
  rw [Sign.fenced, if_pos hAll, if_pos hPassed]

theorem fenced_closing (hAll : all.count depth % 2 = 0) (hPassed : passed.count depth % 2 ≠ 0) :
    Sign.fenced all passed depth .pipe = .closing (.pipe depth) := by
  rw [Sign.fenced, if_pos hAll, if_neg hPassed]

theorem fenced_pipe (all passed : List Nat) (depth : Nat) :
    Sign.fenced all passed depth .pipe = .opening (.pipe depth) ∨
      Sign.fenced all passed depth .pipe = .closing (.pipe depth) ∨
      Sign.fenced all passed depth .pipe = .pipe := by
  rw [Sign.fenced]
  split
  · split
    · exact .inl rfl
    · exact .inr (.inl rfl)
  · exact .inr (.inr rfl)

theorem counts_of_fenced_closing (h : Sign.fenced all passed depth .pipe = .closing (.pipe depth)) :
    all.count depth % 2 = 0 ∧ passed.count depth % 2 ≠ 0 := by
  rw [Sign.fenced] at h
  split at h
  · split at h
    · cases h
    · exact ⟨by assumption, by assumption⟩
  · cases h

theorem step_fenced {sign : Sign Bracket} (hSign : sign ≠ .pipe) {stack next : List Bracket}
    (h : step stack sign = some next) :
    step (stack.map Fence.plain) (sign.fenced all passed depth) = some (next.map Fence.plain) := by
  cases sign with
  | pipe => exact absurd rfl hSign
  | opening bracket =>
    cases h
    rfl
  | closing bracket =>
    rw [step_closing_eq_some h]
    exact step_closing _ _
  | command =>
    cases h
    rfl

theorem fences_append (all passed : List Nat) (depth : Nat) (first second : List (Sign Bracket)) :
    fences all passed depth (first ++ second) = fences all passed depth first ++
      fences all ((pipeLevels depth first).reverse ++ passed) (depthBehind depth first) second := by
  induction first generalizing passed depth with
  | nil => rfl
  | cons sign rest ih =>
    have hLevels : (sign.levels depth).reverse = sign.levels depth := by cases sign <;> rfl
    rw [List.cons_append, fences, fences, ih, pipeLevels, List.reverse_append, hLevels,
      List.append_assoc]
    rfl

theorem relabel_fences (all passed : List Nat) (depth : Nat) (word : List (Sign Bracket)) :
    relabel Fence.bracket? (fences all passed depth word) = relabel some word := by
  induction word generalizing passed depth with
  | nil => rfl
  | cons sign rest ih =>
    have hHere : Sign.relabel Fence.bracket? (sign.fenced all passed depth) =
        Sign.relabel some sign := by
      cases sign with
      | pipe => rcases fenced_pipe all passed depth with h | h | h <;> rw [h] <;> rfl
      | opening bracket => rfl
      | closing bracket => rfl
      | command => rfl
    have hRest := ih (sign.levels depth ++ passed) (sign.depthBehind depth)
    rw [relabel] at hRest ⊢
    rw [fences, relabel, List.filterMap_cons, List.filterMap_cons, hHere, hRest]
    rfl

/-- The open brackets of a fenced word are those of the word, and pipes. -/
theorem nest_of_nest_fences {stack next : List Fence}
    (h : nest stack (fences all passed depth word) = some next) :
    nest (stack.filterMap Fence.bracket?) word = some (next.filterMap Fence.bracket?) := by
  rw [← nest_relabel_some, ← relabel_fences all passed depth]
  exact nest_relabel Fence.bracket? h

/-- A word without pipes of a depth opens and closes none of it. -/
theorem level_fences (h : height ∉ pipeLevels depth word) (count : Nat) :
    level (.pipe height) count (fences all passed depth word) = some count := by
  induction word generalizing passed depth with
  | nil => rfl
  | cons sign rest ih =>
    rw [pipeLevels, List.mem_append] at h
    obtain ⟨hHere, hRest⟩ := not_or.mp h
    have hOther : sign.fenced all passed depth ≠ .opening (.pipe height) ∧
        sign.fenced all passed depth ≠ .closing (.pipe height) := by
      cases sign with
      | pipe =>
        have hNe : depth ≠ height := fun hEq => hHere (List.mem_singleton.mpr hEq.symm)
        rcases fenced_pipe all passed depth with h | h | h <;> simp [h, hNe]
      | opening bracket => simp [Sign.fenced]
      | closing bracket => simp [Sign.fenced]
      | command => simp [Sign.fenced]
    simp only [fences, level, hOther, if_false]
    exact ih hRest

/-- A pipe that opens a pair was a pipe of the word. -/
theorem exists_of_fences_eq {front back : List (Sign Fence)}
    (h : fences all passed depth word = front ++ .opening (.pipe height) :: back) :
    ∃ before after, word = before ++ .pipe :: after ∧ depthBehind depth before = height ∧
      front = fences all passed depth before ∧ all.count height % 2 = 0 ∧
      ((pipeLevels depth before).reverse ++ passed).count height % 2 = 0 ∧
      back = fences all (height :: ((pipeLevels depth before).reverse ++ passed)) height after := by
  induction front generalizing passed depth word with
  | nil =>
    cases word with
    | nil => cases h
    | cons sign rest =>
      obtain ⟨hSign, rfl⟩ := List.cons.inj h
      cases sign with
      | pipe =>
        rw [Sign.fenced] at hSign
        split at hSign
        · split at hSign
          · cases hSign
            exact ⟨[], rest, rfl, rfl, rfl, by assumption, by assumption, rfl⟩
          · cases hSign
        · cases hSign
      | opening bracket => cases hSign
      | closing bracket => cases hSign
      | command => cases hSign
  | cons head front ih =>
    cases word with
    | nil => cases h
    | cons sign rest =>
      obtain ⟨rfl, hRest⟩ := List.cons.inj h
      obtain ⟨before, after, rfl, hDepth, rfl, hAll, hPassed, rfl⟩ := ih hRest
      have hLevels : (pipeLevels depth (sign :: before)).reverse ++ passed =
          (pipeLevels (sign.depthBehind depth) before).reverse ++
            (sign.levels depth ++ passed) := by
        have hReverse : (sign.levels depth).reverse = sign.levels depth := by cases sign <;> rfl
        rw [pipeLevels, List.reverse_append, hReverse, List.append_assoc]
      refine ⟨sign :: before, after, rfl, hDepth, rfl, hAll, ?_, ?_⟩
      · rw [hLevels]
        exact hPassed
      · rw [hLevels]

/-! ## Pairs -/

/-- A pipe on top of the stack opens a pair, and the word does not reach the second pipe. -/
theorem exists_of_pending {stack : List Fence}
    (h : nest [] (fences all passed depth word) = some (.pipe height :: stack)) :
    ∃ before inside, word = before ++ .pipe :: inside ∧ depthBehind depth before = height ∧
      all.count height % 2 = 0 ∧
      ((pipeLevels depth before).reverse ++ passed).count height % 2 = 0 ∧
      IsNested inside ∧ height ∉ pipeLevels height inside := by
  obtain ⟨front, back, hEq, -, hBack⟩ := exists_of_nest_cons h
  obtain ⟨before, inside, rfl, hDepth, rfl, hAll, hPassed, rfl⟩ := exists_of_fences_eq hEq
  refine ⟨before, inside, rfl, hDepth, hAll, hPassed, nest_of_nest_fences hBack, fun hMem => ?_⟩
  -- The second pipe would close what was opened before, but nothing was.
  obtain ⟨inner, after, rfl, hInner, hNone⟩ := exists_first hMem
  rw [fences_append, fences, hInner, fenced_closing hAll (by
    simp only [List.count_append, List.count_reverse, List.count_cons_self,
      List.count_eq_zero.mpr hNone]
    rw [List.count_append, List.count_reverse] at hPassed
    omega)] at hBack
  obtain ⟨between, hFront, hClose⟩ := exists_of_nest_append hBack
  obtain ⟨closed, hStep, -⟩ := nest_cons_eq_some hClose
  obtain rfl := step_closing_eq_some hStep
  have hLevel := level_of_nest (.pipe height) hFront
  rw [List.count_nil, level_fences hNone, List.count_cons_self] at hLevel
  cases hLevel

/-- Two pipes of a word become a pair: they are of one depth, of which there is an even number of
pipes altogether and before the first one, and none between them. -/
structure IsPair (word before inside after : List (Sign Bracket)) : Prop where
  eq : word = before ++ .pipe :: (inside ++ .pipe :: after)
  depth : depthBehind (depthBehind 0 before) inside = depthBehind 0 before
  even : (pipeLevels 0 word).count (depthBehind 0 before) % 2 = 0
  opens : (pipeLevels 0 before).count (depthBehind 0 before) % 2 = 0
  next : depthBehind 0 before ∉ pipeLevels (depthBehind 0 before) inside

theorem IsPair.isNested_inside {before inside after : List (Sign Bracket)}
    (hPair : IsPair word before inside after)
    (h : IsNested (fences (pipeLevels 0 word) [] 0 word)) : IsNested inside := by
  obtain ⟨rfl, hDepth, hEven, hOpens, hNext⟩ := hPair
  generalize pipeLevels 0 (before ++ .pipe :: (inside ++ .pipe :: after)) = all at hEven h
  generalize hFloor : depthBehind 0 before = floor at hDepth hEven hOpens hNext
  have hPassed : ((pipeLevels 0 before).reverse ++ []).count floor % 2 = 0 := by
    rw [List.append_nil, List.count_reverse]
    exact hOpens
  have hClosed : ((pipeLevels floor inside).reverse ++
      (floor :: ((pipeLevels 0 before).reverse ++ []))).count floor % 2 ≠ 0 := by
    rw [List.count_append, List.count_reverse, List.count_eq_zero.mpr hNext, List.count_cons_self]
    omega
  have hEq : fences all [] 0 (before ++ .pipe :: (inside ++ .pipe :: after)) =
      fences all [] 0 before ++ .opening (.pipe floor) ::
        (fences all (floor :: ((pipeLevels 0 before).reverse ++ [])) floor inside ++
          .closing (.pipe floor) :: fences all (floor :: ((pipeLevels floor inside).reverse ++
            (floor :: ((pipeLevels 0 before).reverse ++ [])))) floor after) := by
    rw [fences_append, fences, hFloor, fenced_opening hEven hPassed]
    simp only [Sign.levels, Sign.depthBehind, List.singleton_append]
    rw [fences_append, fences, hDepth, fenced_closing hEven hClosed]
    rfl
  rw [hEq, IsNested] at h
  obtain ⟨between, -, hOpen⟩ := exists_of_nest_append h
  exact nest_of_nest_fences (isNested_of_between hOpen (level_fences hNext 0)).1

section Pairs

variable {front back : List (Sign Bracket)} {stack : List Fence}

/-- The first pipe of a pair is not the innermost open bracket when another bracket closes. -/
theorem exists_isPair_of_pending {bracket : Bracket}
    (hWord : word = front ++ .closing bracket :: back)
    (h : nest [] (fences (pipeLevels 0 word) [] 0 front) = some (.pipe height :: stack)) :
    ∃ before inside after, IsPair word before inside after ∧ nest [] inside = none := by
  obtain ⟨before, inside, rfl, hDepth, hEven, hOpens, hInside, hNone⟩ := exists_of_pending h
  rw [List.append_nil, List.count_reverse] at hOpens
  have hLevels : pipeLevels 0 word = pipeLevels 0 before ++ (height :: (pipeLevels height inside ++
      pipeLevels height (.closing bracket :: back))) := by
    rw [hWord, List.append_assoc, pipeLevels_append, hDepth, List.cons_append, pipeLevels]
    simp only [Sign.levels, Sign.depthBehind, List.singleton_append]
    rw [pipeLevels_append, hInside.depthBehind_eq]
  have hMem : height ∈ pipeLevels height (.closing bracket :: back) := by
    by_contra hMissing
    rw [hLevels, List.count_append, List.count_cons_self, List.count_append,
      List.count_eq_zero.mpr hNone, List.count_eq_zero.mpr hMissing] at hEven
    omega
  obtain ⟨between, after, hBack, hBetween, hNext⟩ := exists_first hMem
  obtain ⟨rest, rfl⟩ : ∃ rest, between = .closing bracket :: rest := by
    cases between with
    | nil => cases hBack
    | cons sign rest =>
      obtain ⟨rfl, -⟩ := List.cons.inj hBack
      exact ⟨rest, rfl⟩
  refine ⟨before, inside ++ .closing bracket :: rest, after, ⟨?_, ?_, ?_, ?_, ?_⟩, ?_⟩
  · rw [hWord, hBack]
    simp
  · rw [hDepth, depthBehind_append, hInside.depthBehind_eq]
    exact hBetween
  · rw [hDepth]
    exact hEven
  · rw [hDepth]
    exact hOpens
  · rw [hDepth, pipeLevels_append, hInside.depthBehind_eq, List.mem_append]
    exact not_or.mpr ⟨hNone, hNext⟩
  · rw [nest_append_of_eq hInside]
    rfl

/-- The second pipe of a pair closes the first one. -/
theorem exists_step_pipe (hWord : word = front ++ .pipe :: back)
    (hPairs : ∀ before inside after, IsPair word before inside after → IsNested inside)
    (h : nest [] (fences (pipeLevels 0 word) [] 0 front) = some stack)
    (hEven : (pipeLevels 0 word).count (depthBehind 0 front) % 2 = 0)
    (hPassed : (pipeLevels 0 front).count (depthBehind 0 front) % 2 ≠ 0) :
    ∃ rest, stack = .pipe (depthBehind 0 front) :: rest := by
  have hMem : depthBehind 0 front ∈ pipeLevels 0 front := by
    rw [← List.count_pos_iff]
    omega
  generalize hFloor : depthBehind 0 front = floor at hEven hPassed hMem ⊢
  obtain ⟨before, inside, rfl, hBefore, hNone⟩ := exists_last hMem
  have hInside : depthBehind floor inside = floor := by
    rw [depthBehind_append, hBefore] at hFloor
    exact hFloor
  have hOpens : (pipeLevels 0 before).count floor % 2 = 0 := by
    rw [pipeLevels_append, hBefore, pipeLevels] at hPassed
    simp only [Sign.levels, Sign.depthBehind, List.singleton_append, List.count_append,
      List.count_cons_self, List.count_eq_zero.mpr hNone] at hPassed
    omega
  have hNested : IsNested inside := by
    refine hPairs before inside back ⟨by rw [hWord]; simp, ?_, ?_, ?_, ?_⟩
    · rw [hBefore, hInside]
    · rw [hBefore]
      exact hEven
    · rw [hBefore]
      exact hOpens
    · rw [hBefore]
      exact hNone
  rw [fences_append, fences, hBefore, fenced_opening hEven (by
    rw [List.append_nil, List.count_reverse]
    exact hOpens)] at h
  obtain ⟨below, -, hOpen⟩ := exists_of_nest_append h
  obtain ⟨opened, hStep, hRest⟩ := nest_cons_eq_some hOpen
  cases hStep
  have hRest : nest ([] ++ .pipe floor :: below) _ = some stack := hRest
  obtain ⟨above, hAbove, rfl, -⟩ := nest_base hRest (level_fences hNone 0)
  -- What lies above the first pipe are pipes that were opened after it, of the same depth.
  cases above with
  | nil => exact ⟨below, rfl⟩
  | cons top above =>
    exfalso
    have hBare := nest_of_nest_fences hAbove
    rw [List.filterMap_nil, hNested] at hBare
    cases top with
    | plain bracket => simp [Fence.bracket?] at hBare
    | pipe other =>
      obtain ⟨outer, inner, rfl, hOuter, -, -, hInner, -⟩ := exists_of_pending hAbove
      have hOuter : depthBehind floor outer = other := hOuter
      rw [depthBehind_append, hOuter] at hInside
      have hSame : other = floor := (hInner.depthBehind_eq other).symm.trans hInside
      rw [pipeLevels_append, hOuter, hSame] at hNone
      exact hNone (List.mem_append_right _ List.mem_cons_self)

/-- The next sign can be read. -/
theorem exists_step {sign : Sign Bracket} (hNested : IsNested word)
    (hPairs : ∀ before inside after, IsPair word before inside after → IsNested inside)
    (hWord : word = front ++ sign :: back)
    (h : nest [] (fences (pipeLevels 0 word) [] 0 front) = some stack) :
    ∃ next, nest stack (fences (pipeLevels 0 word) ((pipeLevels 0 front).reverse ++ [])
      (depthBehind 0 front) [sign]) = some next := by
  rw [List.append_nil, fences, fences]
  cases sign with
  | opening bracket => exact ⟨.plain bracket :: stack, rfl⟩
  | closing bracket =>
    have hBare := nest_of_nest_fences h
    rw [List.filterMap_nil] at hBare
    rw [hWord, IsNested, nest_append_of_eq hBare] at hNested
    obtain ⟨below, hStep, -⟩ := nest_cons_eq_some hNested
    have hTop := step_closing_eq_some hStep
    cases stack with
    | nil => cases hTop
    | cons top stack =>
      cases top with
      | plain other =>
        obtain ⟨rfl, -⟩ := List.cons.inj hTop
        refine ⟨stack, ?_⟩
        rw [Sign.fenced, nest, step_closing]
        rfl
      | pipe height =>
        obtain ⟨before, inside, after, hPair, hNone⟩ := exists_isPair_of_pending hWord h
        rw [hPairs before inside after hPair] at hNone
        cases hNone
  | pipe =>
    rcases fenced_pipe (pipeLevels 0 word) (pipeLevels 0 front).reverse (depthBehind 0 front)
      with hSign | hSign | hSign
    · rw [hSign]
      exact ⟨_, rfl⟩
    · obtain ⟨hEven, hPassed⟩ := counts_of_fenced_closing hSign
      rw [List.count_reverse] at hPassed
      obtain ⟨rest, rfl⟩ := exists_step_pipe hWord hPairs h hEven hPassed
      refine ⟨rest, ?_⟩
      rw [hSign, nest, step_closing]
      rfl
    · rw [hSign]
      exact ⟨_, rfl⟩
  | command => exact ⟨stack, rfl⟩

end Pairs

/-- A group that is nested stays so when its pipes are paired, as long as every pair encloses a part
that is nested. -/
theorem isNested_fences (hWord : IsNested word) (hPairs : ∀ before inside after,
    IsPair word before inside after → IsNested inside) :
    IsNested (fences (pipeLevels 0 word) [] 0 word) := by
  have hFront : ∀ front back, word = front ++ back →
      ∃ stack, nest [] (fences (pipeLevels 0 word) [] 0 front) = some stack := by
    intro front
    induction front using List.reverseRecOn with
    | nil => exact fun _ _ => ⟨[], rfl⟩
    | append_singleton front sign ih =>
      intro back hEq
      rw [List.append_assoc, List.singleton_append] at hEq
      obtain ⟨stack, hStack⟩ := ih (sign :: back) hEq
      rw [fences_append, nest_append_of_eq hStack]
      exact exists_step hWord hPairs hEq hStack
  obtain ⟨stack, hStack⟩ := hFront word [] (List.append_nil word).symm
  cases stack with
  | nil => exact hStack
  | cons top stack =>
    -- A pipe that is open at the end would have no second one.
    exfalso
    cases top with
    | plain bracket =>
      have hBare := nest_of_nest_fences hStack
      rw [List.filterMap_nil, hWord] at hBare
      simp [Fence.bracket?] at hBare
    | pipe height =>
      obtain ⟨before, inside, hEq, hDepth, hEven, hOpens, -, hNone⟩ := exists_of_pending hStack
      rw [List.append_nil, List.count_reverse] at hOpens
      rw [hEq, pipeLevels_append, hDepth, pipeLevels] at hEven
      simp only [Sign.levels, Sign.depthBehind, List.singleton_append, List.count_append,
        List.count_cons_self, List.count_eq_zero.mpr hNone] at hEven
      omega

theorem isNested_fences_iff (hWord : IsNested word) :
    IsNested (fences (pipeLevels 0 word) [] 0 word) ↔ ∀ before inside after,
      IsPair word before inside after → IsNested inside :=
  ⟨fun h _ _ _ hPair => hPair.isNested_inside h, isNested_fences hWord⟩

end Formulary
