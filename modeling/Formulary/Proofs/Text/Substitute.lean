import Formulary.Proofs.Text.Template

/-!
# Rendering arguments into a template

`Placeholder.substitute` renders the arguments of a template one after the other and puts each into
the text that the ones before it have left. A renderer may keep a state from call to call, and each
call may fail. `observe` runs the loop with such a renderer and lists the arguments that it has been
called on:

* `renders_or_fails`, `observe_of_renders`, `observe_of_fails`: every argument is rendered once and
  in order, or the first one that fails ends the loop;
* `isFilled_iff_of_isSingle`: where every name occurs once, the first occurrence is all of them;
* `observe_eq_iff`: what is rendered, what the loop fails with, and what it fills.
-/

namespace Formulary.Placeholder

open Text

variable {α σ ε : Type}

/-! ## Computations with a state -/

section Stateful

variable {β γ : Type} {first : ExceptT ε (StateM σ) β} {state after : σ}

theorem run_bind (first : ExceptT ε (StateM σ) β) (next : β → ExceptT ε (StateM σ) γ) (state : σ) :
    (first >>= next).run state =
      ExceptT.bindCont next (first.run state).1 (first.run state).2 := rfl

theorem run_bind_ok {value : β} (h : first.run state = (.ok value, after))
    (next : β → ExceptT ε (StateM σ) γ) : (first >>= next).run state = (next value).run after := by
  rw [run_bind, h]
  rfl

theorem run_bind_error {error : ε} (h : first.run state = (.error error, after))
    (next : β → ExceptT ε (StateM σ) γ) :
    (first >>= next).run state = (.error error, after) := by
  rw [run_bind, h]
  rfl

end Stateful

/-! ## How a renderer is called -/

/-- A renderer that keeps a state, with a list of the arguments that it has been called on. -/
def noted (render : α → σ → Except ε Text × σ) (arg : α) : ExceptT ε (StateM (σ × List α)) Text :=
  ExceptT.mk fun (state, called) =>
    let (outcome, after) := render arg state
    (outcome, after, called ++ [arg])

/-- Substitute with a renderer that keeps a state: the outcome, the state behind it, and the
arguments that the renderer has been called on. -/
def observe (mode : Substitution) (render : α → σ → Except ε Text × σ) (args : List α)
    (template : Text) (state : σ) : Except ε Text × σ × List α :=
  (substitute mode (noted render) args template).run (state, [])

/-- Every argument is rendered, in order, each in the state that the ones before have left. -/
inductive Renders (render : α → σ → Except ε Text × σ) : σ → List α → List Text → σ → Prop
  | nil {state : σ} : Renders render state [] [] state
  | cons {state next last : σ} {arg : α} {args : List α} {value : Text} {values : List Text}
      (hHead : render arg state = (.ok value, next))
      (hRest : Renders render next args values last) :
      Renders render state (arg :: args) (value :: values) last

section Calls

variable {render : α → σ → Except ε Text × σ} {state middle last : σ} {args before : List α}
  {values : List Text}

theorem Renders.length_eq (h : Renders render state args values last) :
    values.length = args.length := by
  induction h with
  | nil => rfl
  | cons _ _ ih => rw [List.length_cons, List.length_cons, ih]

/-- Arguments are rendered as a whole, or up to a first one that fails. -/
theorem renders_or_fails (render : α → σ → Except ε Text × σ) (args : List α) (state : σ) :
    (∃ values last, Renders render state args values last) ∨
      ∃ before failing after values middle error last, args = before ++ failing :: after ∧
        Renders render state before values middle ∧
        render failing middle = (.error error, last) := by
  induction args generalizing state with
  | nil => exact .inl ⟨[], state, .nil⟩
  | cons arg args ih =>
    rcases hHead : render arg state with ⟨error | value, next⟩
    · exact .inr ⟨[], arg, args, [], state, error, next, rfl, .nil, hHead⟩
    · rcases ih next with ⟨values, last, hRest⟩ |
        ⟨before, failing, after, values, middle, error, last, rfl, hBefore, hFails⟩
      · exact .inl ⟨value :: values, last, .cons hHead hRest⟩
      · exact .inr ⟨arg :: before, failing, after, value :: values, middle, error, last, rfl,
          .cons hHead hBefore, hFails⟩

/-- A call is noted, whatever it gives. -/
theorem run_noted {arg : α} {outcome : Except ε Text} (h : render arg state = (outcome, last))
    (called : List α) :
    (noted render arg).run (state, called) = (outcome, last, called ++ [arg]) := by
  change ((render arg state).1, (render arg state).2, called ++ [arg]) = _
  rw [h]

/-- When every argument is rendered, the loop fills the text with what they give. -/
theorem run_substituteFrom_of_renders (h : Renders render state args values last)
    (mode : Substitution) (position : Nat) (text : Text) (called : List α) :
    (substituteFrom mode (noted render) position args text).run (state, called) =
      (.ok (fillFrom mode position values text), last, called ++ args) := by
  induction h generalizing position text called with
  | nil =>
    rw [substituteFrom, fillFrom, List.append_nil]
    rfl
  | cons hHead _ ih =>
    rw [substituteFrom, run_bind_ok (run_noted hHead called), ih, fillFrom, List.append_assoc,
      List.singleton_append]

/-- An argument that fails ends the loop, whatever the text has become by then. -/
theorem run_substituteFrom_of_fails {failing : α} {error : ε}
    (h : Renders render state before values middle)
    (hFails : render failing middle = (.error error, last)) (mode : Substitution)
    (after : List α) (position : Nat) (text : Text) (called : List α) :
    (substituteFrom mode (noted render) position (before ++ failing :: after) text).run
        (state, called) =
      (.error error, last, called ++ (before ++ [failing])) := by
  induction h generalizing position text called with
  | nil =>
    rw [List.nil_append, substituteFrom]
    exact run_bind_error (run_noted hFails called) _
  | cons hHead _ ih =>
    rw [List.cons_append, substituteFrom, run_bind_ok (run_noted hHead called), ih hFails,
      List.append_assoc]
    rfl

/-- When every argument is rendered, the template is filled with what they give. -/
theorem observe_of_renders (h : Renders render state args values last) (mode : Substitution)
    (template : Text) :
    observe mode render args template state = (.ok (fill mode values template), last, args) :=
  run_substituteFrom_of_renders h mode 1 template []

/-- An argument that fails ends the loop; none behind it is rendered. -/
theorem observe_of_fails {failing : α} {error : ε} (h : Renders render state before values middle)
    (hFails : render failing middle = (.error error, last)) (mode : Substitution)
    (after : List α) (template : Text) :
    observe mode render (before ++ failing :: after) template state =
      (.error error, last, before ++ [failing]) :=
  run_substituteFrom_of_fails h hFails mode after 1 template []

end Calls

/-! ## Names that occur once -/

/-- There are no two places in a text at which the word stands. -/
def IsSingle (word text : Text) : Prop :=
  ∀ i ≤ text.length, ∀ j ≤ text.length,
    word.isPrefixOf (text.drop i) → word.isPrefixOf (text.drop j) → i = j

instance (word text : Text) : Decidable (IsSingle word text) :=
  inferInstanceAs (Decidable (∀ i ≤ text.length, ∀ j ≤ text.length,
    word.isPrefixOf (text.drop i) → word.isPrefixOf (text.drop j) → i = j))

theorem IsSingle.length_eq {word before after other rest : Text}
    (h : IsSingle word (before ++ (word ++ after)))
    (hEq : before ++ (word ++ after) = other ++ (word ++ rest)) : before.length = other.length := by
  refine h before.length (by simp) other.length (by simp [hEq]) ?_ ?_
  · rw [List.drop_left]
    exact isPrefixOf_append_self word after
  · rw [hEq, List.drop_left]
    exact isPrefixOf_append_self word rest

/-- Where a name occurs once, its first occurrence is every one. -/
theorem isFilled_iff_of_isSingle {count : Nat} {template : Text}
    (hOnce : ∀ position, 1 ≤ position → position ≤ count → IsSingle (name position) template)
    (before : Text) (position : Nat) :
    IsFilled .first count template before position ↔
      IsFilled .all count template before position := by
  constructor
  · exact fun h => ⟨h.pos, h.le, h.occurs, nofun⟩
  · intro h
    refine ⟨h.pos, h.le, h.occurs, fun _ => ?_⟩
    obtain ⟨after, rfl⟩ := h.occurs
    by_contra hMentions
    rw [Bool.not_eq_false] at hMentions
    obtain ⟨start, finish, -, rfl, -⟩ := exists_put_of_mentions hMentions .all [] []
    -- The name stands behind `start` and once more behind all of `before`.
    have hEarlier : start ++ (name position ++ finish) ++ (name position ++ after) =
        start ++ (name position ++ (finish ++ (name position ++ after))) := by
      rw [List.append_assoc, List.append_assoc]
    have hLength := (hOnce position h.pos h.le).length_eq hEarlier
    have hName := List.length_pos_of_ne_nil (name_ne_nil position)
    rw [List.length_append, List.length_append] at hLength
    omega

theorem isCut_iff_of_isSingle {count : Nat} {template : Text}
    (hOnce : ∀ position, 1 ≤ position → position ≤ count → IsSingle (name position) template)
    {parts : List Part} : IsCut .first count template parts ↔ IsCut .all count template parts := by
  have hSlots := isFilled_iff_of_isSingle hOnce
  constructor
  · exact fun h => ⟨h.source, fun before position =>
      (h.slots before position).trans (hSlots before position), h.joined⟩
  · exact fun h => ⟨h.source, fun before position =>
      (h.slots before position).trans (hSlots before position).symm, h.joined⟩

/-- Where every name occurs once, both modes fill a template alike. -/
theorem fill_eq_of_isSingle {values : List Text} {template : Text} (hCount : values.length < 10)
    (hValues : ∀ value ∈ values, IsSpan value)
    (hOnce : ∀ position, 1 ≤ position → position ≤ values.length →
      IsSingle (name position) template) :
    fill .first values template = fill .all values template := by
  obtain ⟨parts, hParts, hFirst⟩ := exists_isCut_fill .first hCount hValues template
  obtain ⟨others, hOthers, hAll⟩ := exists_isCut_fill .all hCount hValues template
  rw [hFirst, hAll, hParts.unique ((isCut_iff_of_isSingle hOnce).mpr hOthers)]

/-! ## The loop -/

/-- The loop renders the arguments in order, each once, up to the first one that fails, and fails
with its error, whatever the template. If none fails, it fills the template with what they give; for
up to nine pieces of inline math without `ARG` these are put into the slots of the template at once,
and the mode does not matter where every name occurs once. -/
theorem observe_eq_iff (mode : Substitution) (render : α → σ → Except ε Text × σ) (args : List α)
    (template : Text) (state : σ) :
    (∀ error last called, observe mode render args template state = (.error error, last, called) ↔
      ∃ before failing after values middle, args = before ++ failing :: after ∧
        Renders render state before values middle ∧
        render failing middle = (.error error, last) ∧ called = before ++ [failing]) ∧
    (∀ text last called, observe mode render args template state = (.ok text, last, called) ↔
      ∃ values, Renders render state args values last ∧ called = args ∧
        text = fill mode values template) ∧
    ∀ values last, Renders render state args values last → args.length ≤ 9 →
      (∀ value ∈ values, IsSpan value) →
      (∃ parts, IsCut mode args.length template parts ∧
        observe mode render args template state =
          (.ok (parts.flatMap (Part.fill (valueAt values))), last, args)) ∧
      ((∀ position, 1 ≤ position → position ≤ args.length → IsSingle (name position) template) →
        observe .first render args template state = observe .all render args template state) := by
  refine ⟨fun error last called => ⟨fun h => ?_, ?_⟩, fun text last called => ⟨fun h => ?_, ?_⟩,
    fun values last hRenders hCount hValues => ?_⟩
  · rcases renders_or_fails render args state with ⟨values, last', hRenders⟩ |
      ⟨before, failing, after, values, middle, error', last', rfl, hBefore, hFails⟩
    · rw [observe_of_renders hRenders] at h
      cases h
    · rw [observe_of_fails hBefore hFails] at h
      cases h
      exact ⟨before, failing, after, values, middle, rfl, hBefore, hFails, rfl⟩
  · rintro ⟨before, failing, after, values, middle, rfl, hBefore, hFails, rfl⟩
    exact observe_of_fails hBefore hFails mode after template
  · rcases renders_or_fails render args state with ⟨values, last', hRenders⟩ |
      ⟨before, failing, after, values, middle, error, last', rfl, hBefore, hFails⟩
    · rw [observe_of_renders hRenders] at h
      cases h
      exact ⟨values, hRenders, rfl, rfl⟩
    · rw [observe_of_fails hBefore hFails] at h
      cases h
  · rintro ⟨values, hRenders, rfl, rfl⟩
    exact observe_of_renders hRenders mode template
  · have hLength := hRenders.length_eq
    have hFew : values.length < 10 := by omega
    simp only [observe_of_renders hRenders, ← hLength]
    constructor
    · obtain ⟨parts, hParts, hFill⟩ := exists_isCut_fill mode hFew hValues template
      exact ⟨parts, hParts, by rw [hFill]⟩
    · intro hOnce
      rw [fill_eq_of_isSingle hFew hValues hOnce]

/-- A renderer that puts a letter with its number between the delimiters of inline math, and counts
the calls. -/
def numbered (c : Char) (count : Nat) : Except Unit Text × Nat :=
  (.ok ("\\(".toList ++ c :: ofNat count ++ "\\)".toList), count + 1)

/-- The third argument is rendered although its placeholder does not occur. -/
theorem observe_numbered :
    Renders numbered 1 "xyz".toList (["\\(x1\\)", "\\(y2\\)", "\\(z3\\)"].map String.toList) 4 ∧
    observe .first numbered "xyz".toList "ARG2 ARG12".toList 1 =
      (.ok "\\(y2\\) \\(x1\\)2".toList, 4, "xyz".toList) ∧
    observe .first numbered "xyz".toList "ARG2 ARG12".toList 1 =
      observe .all numbered "xyz".toList "ARG2 ARG12".toList 1 := by
  have hRenders : Renders numbered 1 "xyz".toList
      (["\\(x1\\)", "\\(y2\\)", "\\(z3\\)"].map String.toList) 4 :=
    .cons rfl (.cons rfl (.cons rfl .nil))
  have hValues : ∀ value ∈ ["\\(x1\\)", "\\(y2\\)", "\\(z3\\)"].map String.toList,
      IsSpan value := by
    intro value hMem
    simp only [List.map_cons, List.map_nil, List.mem_cons, List.not_mem_nil, or_false] at hMem
    rcases hMem with rfl | rfl | rfl
    · exact ⟨['x', '1'], by decide, by decide⟩
    · exact ⟨['y', '2'], by decide, by decide⟩
    · exact ⟨['z', '3'], by decide, by decide⟩
  obtain ⟨-, hOk, hCut⟩ := observe_eq_iff .first numbered "xyz".toList "ARG2 ARG12".toList 1
  refine ⟨hRenders, (hOk _ _ _).mpr ⟨_, hRenders, rfl, by decide⟩, ?_⟩
  refine (hCut _ _ hRenders (by decide) hValues).2 fun position hPos hLe => ?_
  have hAll : ∀ position < 4, 1 ≤ position →
      IsSingle (name position) "ARG2 ARG12".toList := by decide +kernel
  exact hAll position (Nat.lt_succ_of_le hLe) hPos

end Formulary.Placeholder
