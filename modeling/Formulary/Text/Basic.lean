/-!
# Text

Text is a list of characters, so that every rewrite of the library is a recursion on a list.
This module holds the few searches and replacements that the other modules share:

* `Text.mentions`: a word occurs somewhere in a text;
* `Text.replaceFirst` and `Text.replaceAll`: literal replacement, of the first or of all
  occurrences that do not overlap, from the left;
* `Text.ofNat` and `Text.ofInt`: decimal numerals.
-/

namespace Formulary

/-- A text is the list of its characters. -/
abbrev Text := List Char

namespace Text

/-- The decimal numeral of a count. -/
def ofNat (n : Nat) : Text := Nat.toDigits 10 n

/-- The decimal numeral of an integer, with a minus sign when it is negative. -/
def ofInt (i : Int) : Text :=
  if i < 0 then '-' :: ofNat i.natAbs else ofNat i.natAbs

/-- The word occurs somewhere in the text. -/
def mentions (word : Text) : Text → Bool
  | [] => word.isEmpty
  | c :: rest => word.isPrefixOf (c :: rest) || mentions word rest

/-- Replace the first occurrence of `word`, if there is one. -/
def replaceFirst (word value : Text) : Text → Text
  | [] => []
  | c :: rest =>
    if word.isPrefixOf (c :: rest) then value ++ (c :: rest).drop word.length
    else c :: replaceFirst word value rest

/-- Replace every occurrence of a nonempty `word`. The first argument counts the characters
of an occurrence that are still to be passed over. -/
def replaceFrom (word value : Text) : Nat → Text → Text
  | _, [] => []
  | skip + 1, _ :: rest => replaceFrom word value skip rest
  | 0, c :: rest =>
    if word.isPrefixOf (c :: rest) then value ++ replaceFrom word value (word.length - 1) rest
    else c :: replaceFrom word value 0 rest

/-- Replace every occurrence of a nonempty `word`, from the left and without overlaps; what is
put in is not searched again. -/
def replaceAll (word value text : Text) : Text := replaceFrom word value 0 text

/-- Cut a text at its first `mark`: what stands before it and what stands after it. -/
def cutAt (mark : Char) : Text → Option (Text × Text)
  | [] => none
  | c :: rest =>
    if c = mark then some ([], rest)
    else (cutAt mark rest).map fun (before, after) => (c :: before, after)

/-- Put a text between braces. -/
def braced (text : Text) : Text := '\x7b' :: text ++ ['\x7d']

end Text

end Formulary
