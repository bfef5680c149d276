import Formulary.Unicode.Ranges

/-!
# Blanks

The characters with the property `White_Space`, which are trimmed from both ends of a number that
is given as text.
-/

namespace Formulary.Unicode

/-- The ranges of `White_Space`. -/
def blankRanges : List (Nat × Nat) := [
  (0x9, 0xD), (0x20, 0x20), (0x85, 0x85), (0xA0, 0xA0), (0x1680, 0x1680), (0x2000, 0x200A),
  (0x2028, 0x2029), (0x202F, 0x202F), (0x205F, 0x205F), (0x3000, 0x3000)]

/-- The character is blank. -/
def isBlank (c : Char) : Bool := inRanges blankRanges c.val.toNat

end Formulary.Unicode
