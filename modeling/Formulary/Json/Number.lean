import Formulary.Decimal.Shortest

/-!
# Numbers

A numeral that fits 64 bits, with or without a sign, is an integer. Every other numeral, also the
negative zero, is a binary magnitude with a sign, and is written with the fewest digits that read
back.
-/

namespace Formulary.Json

/-- A number of a JSON text. -/
inductive Number where
  | integer (value : Int)
  | binary (negative : Bool) (magnitude : Decimal.Binary)
  deriving DecidableEq, Repr, Inhabited

namespace Number

/-- Unsigned integers lie below this bound. -/
def unsignedBound : Nat := Nat.pow 2 64

/-- No integer lies below the negative of this bound. -/
def signedBound : Nat := Nat.pow 2 63

/-- The text of a number. -/
def text : Number → Text
  | .integer value => Text.ofInt value
  | .binary negative magnitude => (if negative then ['-'] else []) ++ magnitude.text

end Number

end Formulary.Json
