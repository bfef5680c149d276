import Formulary.Failure
import Formulary.Unicode.Blank

/-!
# Repeating decimals

A decimal and the number of its last digits that repeat: `1.2345` with two repeating digits is
written `1,23(45)`, with the comma between braces so that no space follows it.
-/

namespace Formulary.Repeating

/-- The whole part of a decimal and the digits behind its point. -/
def parts (decimal : Text) : Text × Text := (Text.cutAt '.' decimal).getD (decimal, [])

/-- A decimal comma without a space behind it. -/
def comma : Text := Text.braced [',']

/-- Write a decimal whose last `count` digits repeat. The count may exceed the number of digits by
one, for the place of the point; then all digits repeat. -/
def format (decimal : Text) (count : Nat) : Except RenderError Text :=
  let (whole, digits) := parts decimal
  let width := digits.length + 1
  if width < count then .error (.repeatTooLong count width)
  else
    let start := digits.length - count
    .ok (whole ++ comma ++ digits.take start ++ '(' :: digits.drop start ++ [')'])

/-- A text without the blanks at its ends. -/
def trim (text : Text) : Text :=
  ((text.dropWhile Unicode.isBlank).reverse.dropWhile Unicode.isBlank).reverse

/-- Digits, after one plus sign that may stand before them. -/
def unsigned : Text → Text
  | '+' :: rest => rest
  | text => text

/-- The count that a text denotes: blanks around it are trimmed, and it is a numeral below
`2 ^ 64`. -/
def count? (text : Text) : Option Nat :=
  let digits := unsigned (trim text)
  if digits ≠ [] ∧ digits.all Char.isDigit then
    let value := digits.foldl (fun n c => n * 10 + (c.toNat - '0'.toNat)) 0
    if value < Nat.pow 2 64 then some value else none
  else none

end Formulary.Repeating
