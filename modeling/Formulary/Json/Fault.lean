import Formulary.Json.Value
import Formulary.Text.Quoted

/-!
# What can be wrong with a JSON text

A `Fault` is the first thing in reading order that keeps a text from being the value that is
asked for. There are three kinds: the text ends early, it breaks the grammar, or it is well formed
and holds something else than expected. `Fault.message` words each of them, without the line and
column at which it is found.
-/

namespace Formulary.Json

/-- What stands where something else is expected. -/
inductive Found where
  | null
  | boolean (value : Bool)
  | number (value : Number)
  | string (value : Text)
  | sequence
  | map
  deriving DecidableEq, Repr, Inhabited

/-- What a value counts as in a message. -/
def Found.ofValue : Value → Found
  | .null => .null
  | .boolean value => .boolean value
  | .number value => .number value
  | .string value => .string value
  | .array _ => .sequence
  | .object _ => .map

/-- What stands there, in words. -/
def Found.text : Found → Text
  | .null => "null".toList
  | .boolean value => (if value then "boolean `true`" else "boolean `false`").toList
  | .number (.integer value) => "integer `".toList ++ Text.ofInt value ++ ['`']
  | .number value => "floating point `".toList ++ value.text ++ ['`']
  | .string value => "string ".toList ++ Text.quote value
  | .sequence => "sequence".toList
  | .map => "map".toList

/-- The first fault of a JSON text. -/
inductive Fault where
  /-- The text ends where a value, or a part of one, is due. -/
  | endInValue
  | endInList
  | endInObject
  | endInString
  /-- The text breaks the grammar. -/
  | expectedValue
  | expectedWord
  | expectedColon
  | expectedListEnd
  | expectedObjectEnd
  | keyNotString
  | trailingComma
  | trailingCharacters
  | badEscape
  | loneSurrogate
  | unfinishedSurrogate
  | controlCharacter
  | badNumber
  | numberOutOfRange
  | tooDeep
  /-- The text holds something else than expected. -/
  | wrongType (found : Found) (expected : Text)
  | wrongLength (length : Nat) (expected : Text)
  | missingField (name : Text)
  | duplicateField (name : Text)
  | noVariant (name : Text)
  deriving DecidableEq, Repr, Inhabited

/-- The kinds of fault. -/
inductive FaultKind where
  | ending
  | grammar
  | data
  deriving DecidableEq, Repr, Inhabited

namespace Fault

/-- The kind of a fault. -/
def kind : Fault → FaultKind
  | .endInValue | .endInList | .endInObject | .endInString => .ending
  | .wrongType .. | .wrongLength .. | .missingField _ | .duplicateField _ | .noVariant _ => .data
  | _ => .grammar

/-- A name between backquotes. -/
def named (name : Text) : Text := '`' :: name ++ ['`']

/-- The wording of a fault, without the line and column that it is found at. -/
def message : Fault → Text
  | .endInValue => "EOF while parsing a value".toList
  | .endInList => "EOF while parsing a list".toList
  | .endInObject => "EOF while parsing an object".toList
  | .endInString => "EOF while parsing a string".toList
  | .expectedValue => "expected value".toList
  | .expectedWord => "expected ident".toList
  | .expectedColon => "expected `:`".toList
  | .expectedListEnd => "expected `,` or `]`".toList
  | .expectedObjectEnd => "expected `,` or `\x7d`".toList
  | .keyNotString => "key must be a string".toList
  | .trailingComma => "trailing comma".toList
  | .trailingCharacters => "trailing characters".toList
  | .badEscape => "invalid escape".toList
  | .loneSurrogate => "lone leading surrogate in hex escape".toList
  | .unfinishedSurrogate => "unexpected end of hex escape".toList
  | .controlCharacter =>
    "control character (\\u0000-\\u001F) found while parsing a string".toList
  | .badNumber => "invalid number".toList
  | .numberOutOfRange => "number out of range".toList
  | .tooDeep => "recursion limit exceeded".toList
  | .wrongType found expected =>
    "invalid type: ".toList ++ found.text ++ ", expected ".toList ++ expected
  | .wrongLength length expected =>
    "invalid length ".toList ++ Text.ofNat length ++ ", expected ".toList ++ expected
  | .missingField name => "missing field ".toList ++ named name
  | .duplicateField name => "duplicate field ".toList ++ named name
  | .noVariant name => "data did not match any variant of untagged enum ".toList ++ name

end Fault

end Formulary.Json
