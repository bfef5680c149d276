import Formulary.Json.Fault
import Formulary.Tree.Tag

/-!
# Failures

Every failure has one cause, and every cause has one wording (`Failure.message`). A tree can fail
to be read (`DecodeError`) or to be rendered (`RenderError`), and a settings text can fail to be
read. What a parser adds to a wording is left out: for a settings text everything behind the prefix,
for a JSON text the line and column of the fault.
-/

namespace Formulary

/-- Why a response cannot be read. -/
inductive DecodeError where
  /-- Its text is not the JSON that is asked for. -/
  | json (fault : Json.Fault)
  /-- A list in it has no first entry. -/
  | missingField (name : Text)
  deriving DecidableEq, Repr, Inhabited

/-- Why a tree cannot be rendered. -/
inductive RenderError where
  /-- A node has fewer children than its layout reads. -/
  | malformedNode (tag : Tag) (found : Nat)
  /-- A layout needs a value that is not there. -/
  | missingValue (tag : Tag)
  /-- More digits repeat than there are. -/
  | repeatTooLong (length width : Nat)
  /-- A value is not of the form that a layout needs. -/
  | invalidLiteral (tag : Tag) (value : Text)
  /-- The tree is nested deeper than the limit. -/
  | depthExceeded (limit : Nat)
  deriving DecidableEq, Repr, Inhabited

/-- Why a conversion fails. -/
inductive Failure where
  | decode (error : DecodeError)
  | render (error : RenderError)
  /-- The settings are not a valid settings document. What the parser says about it is left out. -/
  | settings
  deriving DecidableEq, Repr, Inhabited

/-- The wording of a decode error. -/
def DecodeError.message : DecodeError → Text
  | .json fault => "Invalid JSON: ".toList ++ fault.message
  | .missingField name => "Missing field: ".toList ++ name

/-- The wording of a render error. -/
def RenderError.message : RenderError → Text
  | .malformedNode tag found =>
    "Malformed `".toList ++ tag.name ++ "` node: expected at least ".toList ++
      Text.ofNat tag.arity ++ " children, found ".toList ++ Text.ofNat found
  | .missingValue tag => "Node `".toList ++ tag.name ++ "` has no value".toList
  | .repeatTooLong length width =>
    "Repeat length ".toList ++ Text.ofNat length ++ " exceeds fractional width ".toList ++
      Text.ofNat width
  | .invalidLiteral tag value =>
    "Invalid literal for `".toList ++ tag.name ++ "`: ".toList ++ value
  | .depthExceeded limit =>
    "Expression nesting exceeds ".toList ++ Text.ofNat limit ++ " levels".toList

/-- The wording of a failure, without what the parser of a settings document says is wrong with it
and without the line and column of a JSON fault. -/
def Failure.message : Failure → Text
  | .decode error => "Decode error: ".toList ++ error.message
  | .render error => "Render error: ".toList ++ error.message
  | .settings => "Configuration error: Invalid TOML: ".toList

end Formulary
