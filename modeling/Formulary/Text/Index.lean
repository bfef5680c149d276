import Formulary.Text.Basic
import Formulary.Unicode.Digit

/-!
# Indices in names

A variable's name may carry an index: digits directly behind an underscore. `braceIndices` puts
every such run of digits between braces, so that all of it is set as a subscript.
-/

namespace Formulary

/-- Where in a name the reading stands. -/
inductive IndexSpot where
  | outside
  /-- Directly behind an underscore. -/
  | behind
  /-- Within the digits of an index. -/
  | inside
  deriving DecidableEq, Repr, Inhabited

/-- The spot behind a character that belongs to no index. -/
def IndexSpot.after (c : Char) : IndexSpot := if c = '_' then .behind else .outside

/-- Put the digits of every index between braces, from a spot on. -/
def braceIndicesFrom : IndexSpot → Text → Text
  | .inside, [] => ['\x7d']
  | _, [] => []
  | .inside, c :: rest =>
    if Unicode.isDigit c then c :: braceIndicesFrom .inside rest
    else '\x7d' :: c :: braceIndicesFrom (.after c) rest
  | .behind, c :: rest =>
    if Unicode.isDigit c then '\x7b' :: c :: braceIndicesFrom .inside rest
    else c :: braceIndicesFrom (.after c) rest
  | .outside, c :: rest => c :: braceIndicesFrom (.after c) rest

/-- Put the digits of every index of a name between braces. -/
def braceIndices (name : Text) : Text := braceIndicesFrom .outside name

end Formulary
