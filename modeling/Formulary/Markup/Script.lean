import Formulary.Text.Basic

/-!
# Fractions in scripts

A fraction in a subscript or a superscript is set small. `Script.shrink` writes `\dfrac` as `\frac`
in every stretch that begins with `_` or `^` and an opening brace, ends at the next closing brace
and mentions `dfrac`.
-/

namespace Formulary.Script

/-- The text runs up to a closing brace and mentions `dfrac` before it. -/
def hasFraction (text : Text) : Bool :=
  match Text.cutAt '\x7d' text with
  | some (body, _) => Text.mentions "dfrac".toList body
  | none => false

/-- Write `\dfrac` as `\frac` in the scripts of a text; `inside` says that the reading is within
a script. -/
def shrinkFrom : Bool → Text → Text
  | _, [] => []
  | true, '\\' :: 'd' :: 'f' :: 'r' :: 'a' :: 'c' :: rest =>
    "\\frac".toList ++ shrinkFrom true rest
  | true, c :: rest => c :: shrinkFrom (c ≠ '\x7d') rest
  | false, c :: '\x7b' :: rest =>
    if (c = '_' || c = '^') && hasFraction rest then c :: '\x7b' :: shrinkFrom true rest
    else c :: shrinkFrom false ('\x7b' :: rest)
  | false, c :: rest => c :: shrinkFrom false rest

/-- Write `\dfrac` as `\frac` inside subscripts and superscripts. -/
def shrink (text : Text) : Text := shrinkFrom false text

end Formulary.Script
