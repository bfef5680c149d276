import Formulary.Text.Basic
import Formulary.Unicode.Word

/-!
# Glyphs and commands

Expressions carry Greek letters and number sets as glyphs. `Symbol.substitute` writes each of them
as its command, in one scan from the left. The same scan promotes `\frac` to `\dfrac` when
fractions are set in display size; a longer word that begins with `\frac` is no fraction.
-/

namespace Formulary.Symbol

/-- The glyphs that have a command. Each command ends in a space, so that the letters behind it
do not join its name. -/
def commands : List (Char × Text) := [
  ('α', "\\alpha ".toList), ('β', "\\beta ".toList), ('γ', "\\gamma ".toList),
  ('δ', "\\delta ".toList), ('ε', "\\varepsilon ".toList), ('η', "\\eta ".toList),
  ('θ', "\\theta ".toList), ('λ', "\\lambda ".toList), ('\u00b5', "\\mu ".toList),
  ('\u03bc', "\\mu ".toList), ('π', "\\pi ".toList), ('ρ', "\\rho ".toList),
  ('σ', "\\sigma ".toList), ('τ', "\\tau ".toList), ('Φ', "\\phi ".toList),
  ('ψ', "\\psi ".toList),
  ('ℕ', "\\mathbb".toList ++ Text.braced ['N'] ++ [' ']),
  ('ℤ', "\\mathbb".toList ++ Text.braced ['Z'] ++ [' ']),
  ('ℚ', "\\mathbb".toList ++ Text.braced ['Q'] ++ [' ']),
  ('ℝ', "\\mathbb".toList ++ Text.braced ['R'] ++ [' ']),
  ('∅', "\\varnothing ".toList), ('∞', "\\infty ".toList)]

/-- The command of a glyph. -/
def command? (c : Char) : Option Text := commands.lookup c

/-- A glyph as its command, any other character as itself. -/
def spell (c : Char) : Text := (command? c).getD [c]

/-- No word character follows, so a command name ends here. -/
def wordEnds : Text → Bool
  | [] => true
  | c :: _ => !Unicode.isWord c

/-- Write every glyph as its command and, with `display`, every `\frac` as `\dfrac`. -/
def substitute (display : Bool) : Text → Text
  | [] => []
  | '\\' :: 'f' :: 'r' :: 'a' :: 'c' :: rest =>
    (if display && wordEnds rest then "\\dfrac".toList else "\\frac".toList) ++
      substitute display rest
  | c :: rest => spell c ++ substitute display rest

end Formulary.Symbol
