import Formulary.Text.Basic

/-!
# Settings

The choices that a caller makes for a conversion. Every field has a default, which is the
behaviour that the formats of older templates rely on.
-/

namespace Formulary

/-- Which occurrences of a placeholder an argument fills. -/
inductive Substitution where
  /-- The first one in the text; later ones stay as they are. -/
  | first
  /-- Every one. -/
  | all
  deriving DecidableEq, Repr, Inhabited

/-- How the pipes inside a sized group are treated. -/
inductive PipeSizing where
  /-- Paired by parenthesis depth within each group. -/
  | scoped
  /-- Only the first two pipes of the whole markup become a pair. -/
  | firstPair
  /-- Left as they are. -/
  | off
  deriving DecidableEq, Repr, Inhabited

/-- The delimiters around finished markup. -/
inductive MathStyle where
  /-- `\(` and `\)`. -/
  | inline
  /-- `\[` and `\]`. -/
  | display
  deriving DecidableEq, Repr, Inhabited

/-- The settings of a conversion. -/
structure Settings where
  /-- How many levels of a tree are rendered before it is refused. -/
  maxDepth : Nat := 256
  /-- How arguments fill a template. -/
  substitution : Substitution := .first
  /-- Fractions outside of scripts are set in display size. -/
  displayFractions : Bool := false
  /-- How pipes around fractions are sized. -/
  pipeSizing : PipeSizing := .scoped
  /-- The delimiters around a finished formula. -/
  mathStyle : MathStyle := .inline
  /-- The heading above the final answer of a solution. -/
  answerHeader : Text := "Ответ".toList
  deriving DecidableEq, Repr, Inhabited

end Formulary
