import Mathlib.Data.List.Basic

/-!
# Words of brackets

What markup groups is a word of brackets of several kinds, each opening or closing. `nest` reads a
word with the stack of the brackets that are open, and a word `IsNested` when every bracket is
closed by one of its own kind, in the right order. Pipes and sizing commands, which may stand in a
word of markup, do not bear on the stack.

* `nest_frame`: what lies below on the stack does not matter;
* `nest_relabel`: brackets may be renamed or left out by kind;
* `exists_of_nest_cons`: a bracket that is open was opened, and what follows it is nested;
* `nest_base`, `isNested_of_between`: between a bracket and the one that closes it, a word is nested
  when it closes only what it opens of this one kind;
* `Padded`: braces with nothing in them may be put anywhere.
-/

namespace Formulary

/-- What a character of markup does to the brackets around it, given the kinds of brackets. -/
inductive Sign (Kind : Type) where
  | opening (bracket : Kind)
  | closing (bracket : Kind)
  /-- A pipe that a sizing command may precede. -/
  | pipe
  /-- A delimiter whose size has been set. -/
  | command
  deriving DecidableEq, Repr, Inhabited

variable {Kind Other : Type} [DecidableEq Kind] [DecidableEq Other]

/-! ## Reading a word -/

/-- The open brackets behind one more sign. -/
def step (stack : List Kind) : Sign Kind → Option (List Kind)
  | .opening bracket => some (bracket :: stack)
  | .closing bracket =>
    match stack with
    | [] => none
    | top :: rest => if top = bracket then some rest else none
  | .pipe | .command => some stack

/-- The open brackets behind a word, the innermost first. There are none to tell when a bracket is
closed that is not the innermost one. -/
def nest : List Kind → List (Sign Kind) → Option (List Kind)
  | stack, [] => some stack
  | stack, sign :: rest => (step stack sign).bind fun next => nest next rest

/-- Every bracket is closed, in the right order. -/
def IsNested (word : List (Sign Kind)) : Prop := nest [] word = some []

instance (word : List (Sign Kind)) : Decidable (IsNested word) :=
  inferInstanceAs (Decidable (nest [] word = some []))

variable {stack next base : List Kind} {word first second : List (Sign Kind)}

theorem nest_cons_eq_some {sign : Sign Kind} {rest : List (Sign Kind)}
    (h : nest stack (sign :: rest) = some next) :
    ∃ between, step stack sign = some between ∧ nest between rest = some next :=
  Option.bind_eq_some_iff.mp h

theorem step_closing_eq_some {bracket : Kind} (h : step stack (.closing bracket) = some next) :
    stack = bracket :: next := by
  unfold step at h
  cases stack with
  | nil => cases h
  | cons top rest =>
    simp only at h
    split at h
    · rename_i hTop
      cases h
      rw [hTop]
    · cases h

@[simp] theorem step_closing (bracket : Kind) (stack : List Kind) :
    step (bracket :: stack) (.closing bracket) = some stack := if_pos rfl

theorem nest_append (stack : List Kind) (first second : List (Sign Kind)) :
    nest stack (first ++ second) = (nest stack first).bind fun between => nest between second := by
  induction first generalizing stack with
  | nil => rfl
  | cons sign rest ih =>
    rw [List.cons_append, nest, nest, Option.bind_assoc]
    exact congrArg _ (funext ih)

theorem nest_append_of_eq {between : List Kind} (h : nest stack first = some between)
    (second : List (Sign Kind)) : nest stack (first ++ second) = nest between second := by
  rw [nest_append, h, Option.bind_some]

theorem exists_of_nest_append (h : nest stack (first ++ second) = some next) :
    ∃ between, nest stack first = some between ∧ nest between second = some next := by
  rw [nest_append] at h
  exact Option.bind_eq_some_iff.mp h

theorem step_frame {sign : Sign Kind} (h : step stack sign = some next) (base : List Kind) :
    step (stack ++ base) sign = some (next ++ base) := by
  cases sign with
  | opening bracket =>
    cases h
    rfl
  | closing bracket =>
    rw [step_closing_eq_some h]
    exact step_closing bracket _
  | pipe =>
    cases h
    rfl
  | command =>
    cases h
    rfl

/-- A word does to the top of a stack what it does to a stack of its own. -/
theorem nest_frame (h : nest stack word = some next) (base : List Kind) :
    nest (stack ++ base) word = some (next ++ base) := by
  induction word generalizing stack with
  | nil =>
    cases h
    rfl
  | cons sign rest ih =>
    obtain ⟨between, hStep, hRest⟩ := nest_cons_eq_some h
    rw [nest, step_frame hStep, Option.bind_some, ih hRest]

/-! ## Nested words -/

namespace IsNested

theorem nil : IsNested ([] : List (Sign Kind)) := rfl

theorem nest_eq (h : IsNested word) (stack : List Kind) : nest stack word = some stack :=
  nest_frame h stack

theorem of_pipes (h : ∀ sign ∈ word, sign = .pipe) : IsNested word := by
  induction word with
  | nil => exact nil
  | cons sign rest ih =>
    obtain rfl := h sign List.mem_cons_self
    exact ih fun other hOther => h other (List.mem_cons_of_mem _ hOther)

theorem append (hFirst : IsNested first) (hSecond : IsNested second) :
    IsNested (first ++ second) := by
  rw [IsNested, nest_append_of_eq hFirst]
  exact hSecond

theorem between (h : IsNested word) (bracket : Kind) :
    IsNested (.opening bracket :: (word ++ [.closing bracket])) := by
  rw [IsNested, nest, step, Option.bind_some, nest_append_of_eq (h.nest_eq [bracket]), nest,
    step_closing]
  rfl

end IsNested

/-- A nested word may be put into another word anywhere. -/
theorem nest_insert (h : IsNested word) (stack : List Kind) (first second : List (Sign Kind)) :
    nest stack (first ++ (word ++ second)) = nest stack (first ++ second) := by
  rw [nest_append, nest_append]
  congr 1
  funext between
  exact nest_append_of_eq (h.nest_eq between) second

/-- A bracket that is open behind a word was opened in it, and what follows it is nested. -/
theorem exists_of_nest_cons {bracket : Kind} (h : nest [] word = some (bracket :: stack)) :
    ∃ before inside, word = before ++ .opening bracket :: inside ∧ nest [] before = some stack ∧
      IsNested inside := by
  generalize hLength : word.length = bound
  induction bound using Nat.strongRecOn generalizing word bracket stack with
  | ind bound ih =>
    rcases List.eq_nil_or_concat word with rfl | ⟨front, sign, rfl⟩
    · cases h
    · rw [List.concat_eq_append, List.length_append, List.length_singleton] at hLength
      rw [List.concat_eq_append] at h ⊢
      obtain ⟨between, hFront, hSign⟩ := exists_of_nest_append h
      obtain ⟨behind, hStep, hNil⟩ := nest_cons_eq_some hSign
      cases hNil
      cases sign with
      | opening other =>
        cases hStep
        exact ⟨front, [], rfl, hFront, .nil⟩
      | closing other =>
        -- The last bracket closes another one, before which this one was open already.
        obtain rfl := step_closing_eq_some hStep
        obtain ⟨outer, inner, rfl, hOuter, hInner⟩ := ih _ (by omega) hFront rfl
        obtain ⟨before, inside, rfl, hBefore, hInside⟩ :=
          ih _ (by simp at hLength; omega) hOuter rfl
        refine ⟨before, inside ++ .opening other :: (inner ++ [.closing other]), by simp,
          hBefore, ?_⟩
        exact hInside.append (hInner.between other)
      | pipe =>
        cases hStep
        obtain ⟨before, inside, rfl, hBefore, hInside⟩ := ih _ (by omega) hFront rfl
        have hLast : IsNested [(.pipe : Sign Kind)] := rfl
        exact ⟨before, inside ++ [.pipe], by simp, hBefore, hInside.append hLast⟩
      | command =>
        cases hStep
        obtain ⟨before, inside, rfl, hBefore, hInside⟩ := ih _ (by omega) hFront rfl
        have hLast : IsNested [(.command : Sign Kind)] := rfl
        exact ⟨before, inside ++ [.command], by simp, hBefore, hInside.append hLast⟩

/-! ## Renaming kinds -/

/-- Rename the brackets of a sign, or leave it out. -/
def Sign.relabel (name : Kind → Option Other) : Sign Kind → Option (Sign Other)
  | .opening bracket => (name bracket).map .opening
  | .closing bracket => (name bracket).map .closing
  | .pipe | .command => none

/-- Rename the brackets of a word, and leave out those without a new name. -/
def relabel (name : Kind → Option Other) (word : List (Sign Kind)) : List (Sign Other) :=
  word.filterMap (Sign.relabel name)

omit [DecidableEq Kind] [DecidableEq Other] in
theorem relabel_append (name : Kind → Option Other) (first second : List (Sign Kind)) :
    relabel name (first ++ second) = relabel name first ++ relabel name second :=
  List.filterMap_append

omit [DecidableEq Kind] [DecidableEq Other] in
theorem relabel_cons (name : Kind → Option Other) (sign : Sign Kind) (rest : List (Sign Kind)) :
    relabel name (sign :: rest) = relabel name [sign] ++ relabel name rest :=
  relabel_append name [sign] rest

theorem nest_relabel (name : Kind → Option Other) (h : nest stack word = some next) :
    nest (stack.filterMap name) (relabel name word) = some (next.filterMap name) := by
  induction word generalizing stack with
  | nil =>
    cases h
    rfl
  | cons sign rest ih =>
    obtain ⟨between, hStep, hRest⟩ := nest_cons_eq_some h
    have hLater := ih hRest
    cases sign with
    | opening bracket =>
      cases hStep
      cases hName : name bracket <;>
        simpa [relabel, Sign.relabel, hName, nest, step] using hLater
    | closing bracket =>
      obtain rfl := step_closing_eq_some hStep
      cases hName : name bracket <;>
        simpa [relabel, Sign.relabel, hName, nest, step] using hLater
    | pipe =>
      cases hStep
      exact hLater
    | command =>
      cases hStep
      exact hLater

theorem nest_relabel_some (stack : List Kind) (word : List (Sign Kind)) :
    nest stack (relabel some word) = nest stack word := by
  induction word generalizing stack with
  | nil => rfl
  | cons sign rest ih =>
    cases sign with
    | opening bracket => exact ih (bracket :: stack)
    | closing bracket => exact congrArg (Option.bind (step stack (.closing bracket))) (funext ih)
    | pipe => exact ih stack
    | command => exact ih stack

theorem IsNested.relabel (h : IsNested word) (name : Kind → Option Other) :
    IsNested (relabel name word) := nest_relabel name h

/-! ## One kind of bracket -/

/-- The number of brackets of one kind that are open behind a word, given the number before it.
There is none when the word closes one that was not open. -/
def level (bracket : Kind) : Nat → List (Sign Kind) → Option Nat
  | depth, [] => some depth
  | depth, sign :: rest =>
    if sign = .opening bracket then level bracket (depth + 1) rest
    else if sign = .closing bracket then
      match depth with
      | 0 => none
      | outer + 1 => level bracket outer rest
    else level bracket depth rest

theorem level_append (bracket : Kind) (depth : Nat) (first second : List (Sign Kind)) :
    level bracket depth (first ++ second) =
      (level bracket depth first).bind fun between => level bracket between second := by
  induction first generalizing depth with
  | nil => rfl
  | cons sign rest ih =>
    simp only [List.cons_append, level]
    split
    · exact ih _
    · split
      · cases depth with
        | zero => rfl
        | succ outer => exact ih outer
      · exact ih depth

theorem level_of_nest (bracket : Kind) (h : nest stack word = some next) :
    level bracket (stack.count bracket) word = some (next.count bracket) := by
  induction word generalizing stack with
  | nil =>
    cases h
    rfl
  | cons sign rest ih =>
    obtain ⟨between, hStep, hRest⟩ := nest_cons_eq_some h
    have hLater := ih hRest
    cases sign with
    | opening other =>
      cases hStep
      by_cases hSame : other = bracket
      · subst hSame
        simpa [level] using hLater
      · simpa [level, hSame] using hLater
    | closing other =>
      obtain rfl := step_closing_eq_some hStep
      by_cases hSame : other = bracket
      · subst hSame
        simpa [level] using hLater
      · simpa [level, hSame] using hLater
    | pipe =>
      cases hStep
      simpa [level] using hLater
    | command =>
      cases hStep
      simpa [level] using hLater

/-- The level rises by the brackets that a word opens and falls by those that it closes. -/
theorem level_count {bracket : Kind} {depth behind : Nat}
    (h : level bracket depth word = some behind) :
    depth + word.count (.opening bracket) = behind + word.count (.closing bracket) := by
  induction word generalizing depth with
  | nil =>
    cases h
    rfl
  | cons sign rest ih =>
    rw [List.count_cons, List.count_cons]
    simp only [level] at h
    split at h
    · rename_i hOpen
      subst hOpen
      have hRest := ih h
      simp only [beq_self_eq_true, if_true, beq_iff_eq, reduceCtorEq, if_false]
      omega
    · rename_i hOpen
      split at h
      · rename_i hClose
        subst hClose
        cases depth with
        | zero => cases h
        | succ outer =>
          have hRest := ih h
          simp only [beq_self_eq_true, if_true, beq_iff_eq, reduceCtorEq, if_false]
          omega
      · rename_i hClose
        have hRest := ih h
        simp only [beq_iff_eq, hOpen, hClose, if_false]
        omega

/-- A bracket that is open below a word stays open as long as the word closes only what it opens of
this kind. -/
theorem nest_base {bracket : Kind} {above : List Kind} {depth : Nat}
    (h : nest (above ++ bracket :: base) word = some next)
    (hLevel : level bracket (above.count bracket) word = some depth) :
    ∃ after, nest above word = some after ∧ next = after ++ bracket :: base ∧
      after.count bracket = depth := by
  induction word generalizing above with
  | nil =>
    cases h
    cases hLevel
    exact ⟨above, rfl, rfl, rfl⟩
  | cons sign rest ih =>
    obtain ⟨between, hStep, hRest⟩ := nest_cons_eq_some h
    cases sign with
    | opening other =>
      cases hStep
      have hCount : level bracket ((other :: above).count bracket) rest = some depth := by
        by_cases hSame : other = bracket
        · subst hSame
          simpa [level] using hLevel
        · simpa [level, hSame] using hLevel
      exact @ih (other :: above) hRest hCount
    | closing other =>
      have hTop := step_closing_eq_some hStep
      cases above with
      | nil =>
        obtain ⟨rfl, rfl⟩ := List.cons.inj hTop
        simp [level] at hLevel
      | cons top above =>
        obtain ⟨rfl, rfl⟩ := List.cons.inj hTop
        have hCount : level bracket (above.count bracket) rest = some depth := by
          by_cases hSame : top = bracket
          · subst hSame
            simpa [level] using hLevel
          · simpa [level, hSame] using hLevel
        obtain ⟨after, hAfter, hNext, hDepth⟩ := ih hRest hCount
        refine ⟨after, ?_, hNext, hDepth⟩
        rw [nest, step_closing, Option.bind_some, hAfter]
    | pipe =>
      cases hStep
      exact ih hRest (by simpa [level] using hLevel)
    | command =>
      cases hStep
      exact ih hRest (by simpa [level] using hLevel)

/-- Between a bracket and the one that closes it stands a nested word, as soon as the brackets of
this kind match. -/
theorem isNested_of_between {bracket : Kind} {body rest : List (Sign Kind)}
    (h : nest stack (.opening bracket :: (body ++ .closing bracket :: rest)) = some next)
    (hLevel : level bracket 0 body = some 0) : IsNested body ∧ nest stack rest = some next := by
  obtain ⟨opened, hOpen, hBehind⟩ := nest_cons_eq_some h
  cases hOpen
  obtain ⟨between, hBody, hClose⟩ := exists_of_nest_append hBehind
  have hStack : nest ([] ++ bracket :: stack) body = some between := hBody
  have hNone : level bracket (([] : List Kind).count bracket) body = some 0 := hLevel
  obtain ⟨after, hAfter, rfl, hCount⟩ := nest_base hStack hNone
  obtain ⟨closed, hStep, hRest⟩ := nest_cons_eq_some hClose
  have hTop := step_closing_eq_some hStep
  cases after with
  | nil =>
    obtain ⟨-, rfl⟩ := List.cons.inj hTop
    exact ⟨hAfter, hRest⟩
  | cons top after =>
    obtain ⟨rfl, -⟩ := List.cons.inj hTop
    simp at hCount

/-! ## Empty braces -/

/-- A bracket of markup before it is sized. -/
inductive Bracket where
  | brace
  | paren
  deriving DecidableEq, Repr, Inhabited

/-- The second word is the first one with empty braces put in. -/
inductive Padded : List (Sign Bracket) → List (Sign Bracket) → Prop
  | nil : Padded [] []
  | cons (sign : Sign Bracket) {first second : List (Sign Bracket)} (h : Padded first second) :
    Padded (sign :: first) (sign :: second)
  | braces {first second : List (Sign Bracket)} (h : Padded first second) :
    Padded first (.opening .brace :: .closing .brace :: second)

namespace Padded

variable {first second : List (Sign Bracket)}

theorem refl (word : List (Sign Bracket)) : Padded word word := by
  induction word with
  | nil => exact .nil
  | cons sign rest ih => exact .cons sign ih

theorem append {first first' second second' : List (Sign Bracket)} (hFirst : Padded first first')
    (hSecond : Padded second second') : Padded (first ++ second) (first' ++ second') := by
  induction hFirst with
  | nil => exact hSecond
  | cons sign _ ih => exact .cons sign ih
  | braces _ ih => exact .braces ih

theorem nest_eq (h : Padded first second) (stack : List Bracket) :
    nest stack second = nest stack first := by
  induction h generalizing stack with
  | nil => rfl
  | cons sign _ ih =>
    rw [nest, nest]
    exact congrArg _ (funext ih)
  | braces _ ih =>
    rw [nest, step, Option.bind_some, nest, step_closing, Option.bind_some]
    exact ih stack

/-- Empty braces stay empty braces, or are left out, when brackets are renamed. -/
theorem nest_relabel_eq (h : Padded first second) (name : Bracket → Option Other)
    (stack : List Other) :
    nest stack (relabel name second) = nest stack (relabel name first) := by
  induction h generalizing stack with
  | nil => rfl
  | @cons sign first second _ ih =>
    rw [relabel_cons name sign first, relabel_cons name sign second, nest_append, nest_append]
    exact congrArg _ (funext ih)
  | braces _ ih =>
    cases hName : name .brace with
    | none =>
      simp only [relabel, List.filterMap_cons, Sign.relabel, hName, Option.map_none]
      exact ih stack
    | some other =>
      simp only [relabel, List.filterMap_cons, Sign.relabel, hName, Option.map_some, nest, step,
        if_true, Option.bind_some]
      exact ih stack

theorem mem (h : Padded first second) {sign : Sign Bracket}
    (hSign : ∀ bracket, sign ≠ .opening bracket ∧ sign ≠ .closing bracket) :
    sign ∈ second ↔ sign ∈ first := by
  induction h with
  | nil => rfl
  | cons other _ ih => rw [List.mem_cons, List.mem_cons, ih]
  | braces _ ih =>
    rw [List.mem_cons, List.mem_cons, ih]
    simp [hSign]

end Padded

end Formulary
