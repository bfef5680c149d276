import Formulary.Text.Basic
import Formulary.Unicode.Hidden

/-!
# Quoted text in messages

A message quotes a text between double quotes. Quotes and backslashes are escaped, the usual
control characters have their letter, and every other character that a page does not show is
named by its number.
-/

namespace Formulary.Text

/-- The digits of a number in base sixteen. -/
def hex (n : Nat) : Text := Nat.toDigits 16 n

/-- One character of a quotation. -/
def quoteChar (c : Char) : Text :=
  match c with
  | '"' => "\\\"".toList
  | '\\' => "\\\\".toList
  | '\n' => "\\n".toList
  | '\r' => "\\r".toList
  | '\t' => "\\t".toList
  | '\x00' => "\\0".toList
  | c => if Unicode.isHidden c then "\\u".toList ++ braced (hex c.val.toNat) else [c]

/-- A text between double quotes. -/
def quote (text : Text) : Text := '"' :: text.flatMap quoteChar ++ ['"']

end Formulary.Text
