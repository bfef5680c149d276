import Formulary.Text.Basic

/-!
# Segments of localized text

Localized text is prose with inline math between `\(` and `\)`. `segments` cuts it, from the left,
into math spans, runs of prose without a backslash, and single backslashes that open no span. A
span holds at least one character and no line break, and ends at the first `\)` behind its opening.
`localize` turns the text into markup: the inner text of a span stays as it is and prose becomes
`\text` with the run between braces.
-/

namespace Formulary

/-- A piece of localized text. -/
inductive Segment where
  /-- A math span with the given inner text. -/
  | math (inner : Text)
  /-- A run of prose. -/
  | prose (run : Text)
  /-- A character that is neither, a backslash. -/
  | raw (char : Char)
  deriving DecidableEq, Repr, Inhabited

namespace Segment

/-- The piece of text that a segment is cut from. -/
def slice : Segment → Text
  | .math inner => '\\' :: '(' :: inner ++ ['\\', ')']
  | .prose run => run
  | .raw char => [char]

/-- The markup of a segment. -/
def markup : Segment → Text
  | .math inner => inner
  | .prose run => "\\text".toList ++ Text.braced run
  | .raw char => [char]

/-- Cut a text at its first `\)`: what stands before it and what stands after it. -/
def cutAtClosing : Text → Option (Text × Text)
  | [] => none
  | '\\' :: ')' :: rest => some ([], rest)
  | c :: rest => (cutAtClosing rest).map fun (before, after) => (c :: before, after)

/-- The math span at the front of a text. -/
def mathSpan? : Text → Option (Segment × Text)
  | '\\' :: '(' :: rest =>
    match cutAtClosing rest with
    | some (inner, after) =>
      if inner = [] ∨ '\n' ∈ inner then none else some (.math inner, after)
    | none => none
  | _ => none

/-- The run of prose at the front of a text. -/
def prose? (text : Text) : Option (Segment × Text) :=
  match text.takeWhile (· ≠ '\\') with
  | [] => none
  | run => some (.prose run, text.dropWhile (· ≠ '\\'))

/-- The first segment of a text that goes on with `c` and `rest`. -/
def next (c : Char) (rest : Text) : Segment × Text :=
  ((mathSpan? (c :: rest)).or (prose? (c :: rest))).getD (.raw c, rest)

end Segment

/-- Cut a text into segments. Every segment takes a character, so `bound` is never used up when
it is at least the length of the text. -/
def segmentsWithin : Nat → Text → List Segment
  | _, [] => []
  | 0, _ :: _ => []
  | bound + 1, c :: rest =>
    let (segment, after) := Segment.next c rest
    segment :: segmentsWithin bound after

/-- Cut a text into segments. -/
def segments (text : Text) : List Segment := segmentsWithin text.length text

/-- Turn localized text into markup. -/
def localize (text : Text) : Text := (segments text).flatMap Segment.markup

end Formulary
