import Formulary.Markup.Delimiter
import Formulary.Markup.Script
import Formulary.Markup.Symbol

/-!
# From raw to finished markup

Raw markup passes three stages in a fixed order: glyphs become commands, fractions in scripts
shrink, and delimiters around fractions are sized. `Markup.finish` runs them; `Markup.wrap` puts
the math delimiters around the result.
-/

namespace Formulary

/-- A rewrite of the markup as a whole. -/
inductive Stage where
  | symbols
  | scripts
  | delimiters
  deriving DecidableEq, Repr, Inhabited

namespace Stage

/-- The stages in the order in which they run. -/
def all : List Stage := [.symbols, .scripts, .delimiters]

/-- The name under which a stage is reported. -/
def name : Stage → Text
  | .symbols => "symbols".toList
  | .scripts => "script-fractions".toList
  | .delimiters => "delimiters".toList

/-- Run one stage. -/
def apply (settings : Settings) : Stage → Text → Text
  | .symbols, text => Symbol.substitute settings.displayFractions text
  | .scripts, text => Script.shrink text
  | .delimiters, text => Delimiter.size settings.pipeSizing text

/-- A text before every stage of a list and after it. -/
def passes (settings : Settings) : List Stage → Text → List (Stage × Text × Text)
  | [], _ => []
  | stage :: rest, text =>
    let next := stage.apply settings text
    (stage, text, next) :: passes settings rest next

end Stage

namespace Markup

/-- Run every stage. -/
def finish (settings : Settings) (raw : Text) : Text :=
  Stage.all.foldl (fun text stage => stage.apply settings text) raw

/-- Put the delimiters of a style around finished markup. -/
def wrap : MathStyle → Text → Text
  | .inline, text => "\\(".toList ++ text ++ "\\)".toList
  | .display, text => "\\[".toList ++ text ++ "\\]".toList

end Markup

end Formulary
