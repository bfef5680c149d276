import Formulary.Text.Basic

/-!
# What leads up to a character

Markup is read once, from the left. A backslash that is not itself escaped consumes the
character after it: before a letter it opens a control word, before anything else it is a
control symbol such as `\(`, `\|` or the row break `\\`. The `Lead` of a character says which
of these stands right before it:

* `Lead.slash`: an unescaped backslash, so the character is escaped;
* `Lead.word name`: the control word `\name`, read up to here;
* `Lead.plain`: neither.

`marks` attaches its lead to every character of a text. Every rewrite that asks whether a
parenthesis or a pipe is escaped, or follows `\left`, asks this reading.
-/

namespace Formulary

/-- What stands right before a character of a text that is read from the left. -/
inductive Lead where
  /-- Nothing that bears on the character. -/
  | plain
  /-- A backslash that is not escaped. -/
  | slash
  /-- A backslash that is not escaped and the letters after it. -/
  | word (name : Text)
  deriving DecidableEq, Repr, Inhabited

/-- The lead of the next character, after one more character. -/
def Lead.after : Lead → Char → Lead
  | .slash, c => if c.isAlpha then .word [c] else .plain
  | .word name, c =>
    if c.isAlpha then .word (name ++ [c]) else if c = '\\' then .slash else .plain
  | .plain, c => if c = '\\' then .slash else .plain

/-- The lead at the end of a text. -/
def Lead.through (lead : Lead) (text : Text) : Lead := text.foldl Lead.after lead

/-- A character together with its lead. -/
structure Mark where
  lead : Lead
  char : Char
  deriving DecidableEq, Repr, Inhabited

namespace Mark

/-- The character is consumed by the backslash before it. -/
def escaped (mark : Mark) : Bool := mark.lead = .slash

/-- The character is `c` and is not escaped. -/
def isBare (mark : Mark) (c : Char) : Bool := mark.char = c && !mark.escaped

end Mark

/-- The characters of a text that starts behind `lead`, each with its own lead. -/
def marksFrom (lead : Lead) : Text → List Mark
  | [] => []
  | c :: rest => ⟨lead, c⟩ :: marksFrom (lead.after c) rest

/-- The characters of a text, each with its lead. -/
def marks (text : Text) : List Mark := marksFrom .plain text

/-- Forget the leads. -/
def plainText (marked : List Mark) : Text := marked.map Mark.char

@[simp] theorem plainText_marksFrom (lead : Lead) (text : Text) :
    plainText (marksFrom lead text) = text := by
  induction text generalizing lead with
  | nil => rfl
  | cons c rest ih => exact congrArg (c :: ·) (ih (lead.after c))

/-- Attaching leads loses and adds no character. -/
@[simp] theorem plainText_marks (text : Text) : plainText (marks text) = text :=
  plainText_marksFrom .plain text

end Formulary
