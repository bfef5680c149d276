import Formulary.Settings

/-!
# Placeholders

A template names its arguments by position: `ARG1`, `ARG2`, and so on. They are filled one after
the other, each in the text that the ones before it have left (`Placeholder.fill`). The loop that
renders the arguments fills each one in before it renders the next (`Placeholder.substitute`), which
comes to rendering all of them first (`Placeholder.substitute_eq`).
-/

namespace Formulary.Placeholder

/-- The placeholder of the argument at a position; the first position is one. -/
def name (position : Nat) : Text := "ARG".toList ++ Text.ofNat position

/-- Put a value in the place of a placeholder. -/
def put (mode : Substitution) (position : Nat) (value text : Text) : Text :=
  match mode with
  | .first => Text.replaceFirst (name position) value text
  | .all => Text.replaceAll (name position) value text

/-- Fill placeholders from `position` on with values. -/
def fillFrom (mode : Substitution) : Nat → List Text → Text → Text
  | _, [], text => text
  | position, value :: rest, text =>
    fillFrom mode (position + 1) rest (put mode position value text)

/-- Fill the placeholders of a template with values, the first value at position one. -/
def fill (mode : Substitution) (values : List Text) (template : Text) : Text :=
  fillFrom mode 1 values template

section Substitute

variable {m : Type → Type} [Monad m] {α : Type}

/-- Fill placeholders from `position` on with what is rendered for each argument. An argument is
rendered after the ones before it have been put into the text. -/
def substituteFrom (mode : Substitution) (render : α → m Text) :
    Nat → List α → Text → m Text
  | _, [], text => pure text
  | position, arg :: rest, text => do
    let value ← render arg
    substituteFrom mode render (position + 1) rest (put mode position value text)

/-- Fill the placeholders of a template with what is rendered for each argument, the first argument
at position one. -/
def substitute (mode : Substitution) (render : α → m Text) (args : List α) (template : Text) :
    m Text :=
  substituteFrom mode render 1 args template

variable [LawfulMonad m]

theorem substituteFrom_eq (mode : Substitution) (render : α → m Text) (position : Nat)
    (args : List α) (text : Text) :
    substituteFrom mode render position args text = do
      let values ← args.mapM render
      return fillFrom mode position values text := by
  induction args generalizing position text with
  | nil => rw [substituteFrom, List.mapM_nil, pure_bind, fillFrom]
  | cons arg rest ih =>
    simp only [substituteFrom, List.mapM_cons, bind_assoc, pure_bind, fillFrom, ih]

/-- What is rendered does not depend on the text, so the arguments may as well be rendered first. -/
theorem substitute_eq (mode : Substitution) (render : α → m Text) (args : List α)
    (template : Text) :
    substitute mode render args template = do
      let values ← args.mapM render
      return fill mode values template :=
  substituteFrom_eq mode render 1 args template

end Substitute

end Formulary.Placeholder
