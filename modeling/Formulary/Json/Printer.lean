import Formulary.Json.Value

/-!
# Compact JSON text

Values are written without blanks. In a string the quote, the backslash and the control characters
are escaped, and nothing else.
-/

namespace Formulary.Json

/-- The four digits of a control character's escape. -/
def controlEscape (c : Char) : Text :=
  let digits := Nat.toDigits 16 c.val.toNat
  "\\u".toList ++ List.replicate (4 - digits.length) '0' ++ digits

/-- One character of a string. -/
def escapeChar (c : Char) : Text :=
  match c with
  | '"' => "\\\"".toList
  | '\\' => "\\\\".toList
  | '\x08' => "\\b".toList
  | '\x0c' => "\\f".toList
  | '\n' => "\\n".toList
  | '\r' => "\\r".toList
  | '\t' => "\\t".toList
  | c => if c.val < 0x20 then controlEscape c else [c]

/-- The text of a string. -/
def printString (text : Text) : Text := '"' :: text.flatMap escapeChar ++ ['"']

/-- The text of an array with the given items. -/
def printArray (items : List Text) : Text := '[' :: [','].intercalate items ++ [']']

/-- The text of one member. -/
def printMember (key value : Text) : Text := printString key ++ ':' :: value

/-- The text of an object with the given members, in their order. -/
def printObject (members : List (Text × Text)) : Text :=
  Text.braced ([','].intercalate (members.map fun (key, value) => printMember key value))

namespace Value

mutual

/-- The text of a value. -/
def print : Value → Text
  | .null => "null".toList
  | .boolean value => (if value then "true" else "false").toList
  | .number value => value.text
  | .string value => printString value
  | .array items => printArray (printItems items)
  | .object members => printObject (printMembers members)

/-- The texts of the items of an array. -/
def printItems : List Value → List Text
  | [] => []
  | item :: rest => item.print :: printItems rest

/-- The members of an object with their values as text. -/
def printMembers : List (Text × Value) → List (Text × Text)
  | [] => []
  | (key, item) :: rest => (key, item.print) :: printMembers rest

end

end Value

end Formulary.Json
