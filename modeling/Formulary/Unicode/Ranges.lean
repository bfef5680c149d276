/-!
# Sets of characters as ranges

A property of characters is a rising list of closed ranges of their numbers.
-/

namespace Formulary.Unicode

/-- The number lies in one of the ranges, which rise. -/
def inRanges : List (Nat × Nat) → Nat → Bool
  | [], _ => false
  | (low, high) :: rest, n => if n < low then false else n ≤ high || inRanges rest n

end Formulary.Unicode
