import Formulary.Text.Basic

/-!
# The lexemes of a settings document

Settings are written in TOML. A `Reader` takes what it reads from the front of a text or refuses
the whole document; nobody asks where and why. This module reads blanks, comments, line ends,
keys, strings and integers.
-/

namespace Formulary.Toml

/-- A reader takes a value from the front of a text, or refuses the document. -/
abbrev Reader := StateT Text Option

namespace Reader

/-- Refuse the document. -/
def refuse {α : Type} : Reader α := fun _ => none

/-- Take the given characters. -/
def word (letters : Text) : Reader Unit := fun text =>
  if letters.isPrefixOf text then some ((), text.drop letters.length) else none

/-- Whether the given characters come next. -/
def sees (letters : Text) : Reader Bool := fun text => some (letters.isPrefixOf text, text)

/-- Whether the text ends here. -/
def atEnd : Reader Bool := fun text => some (text.isEmpty, text)

end Reader

/-! ## Blanks, comments and line ends -/

/-- Spaces and tabs. -/
def isBlank (c : Char) : Bool := c = ' ' || c = '\t'

/-- The characters of a comment and of a literal string: all but control characters. -/
def isShown (c : Char) : Bool := c = '\t' || (0x20 ≤ c.val && c.val ≠ 0x7F)

/-- Take spaces and tabs. -/
def blanks : Reader Unit := fun text => some ((), text.dropWhile isBlank)

/-- A text behind a line end, if it begins with one. -/
def behindLineEnd? : Text → Option Text
  | '\n' :: rest => some rest
  | '\r' :: '\n' :: rest => some rest
  | _ => none

/-- Take a line end. -/
def lineEnd : Reader Unit := fun text => (behindLineEnd? text).map ((), ·)

/-- Take a comment, if there is one. -/
def comment : Reader Unit := fun
  | '#' :: rest => some ((), rest.dropWhile isShown)
  | text => some ((), text)

/-- Take the rest of a line: blanks, a comment and the line end or the end of the text. -/
def restOfLine : Reader Unit := do
  blanks
  comment
  if ← Reader.atEnd then return () else lineEnd

/-- Take blanks, comments and line ends; every step but the last takes a character. -/
def gapWithin : Nat → Text → Text
  | 0, text => text
  | bound + 1, text =>
    match text with
    | [] => []
    | c :: rest =>
      if isBlank c then gapWithin bound rest
      else if c = '#' then gapWithin bound (rest.dropWhile isShown)
      else
        match behindLineEnd? (c :: rest) with
        | some after => gapWithin bound after
        | none => c :: rest

/-- Take blanks, comments and line ends. -/
def gap : Reader Unit := fun text => some ((), gapWithin text.length text)

/-- Take blanks and line ends, from the front of a text. -/
def blankLines : Text → Text
  | '\r' :: '\n' :: rest => blankLines rest
  | c :: rest => if isBlank c || c = '\n' then blankLines rest else c :: rest
  | [] => []

/-! ## Strings -/

/-- The value of a digit in the given base, at most sixteen. -/
def digit? (base : Nat) (c : Char) : Option Nat :=
  let value? :=
    if c.isDigit then some (c.toNat - '0'.toNat)
    else if 'a' ≤ c ∧ c ≤ 'f' then some (c.toNat - 'a'.toNat + 10)
    else if 'A' ≤ c ∧ c ≤ 'F' then some (c.toNat - 'A'.toNat + 10)
    else none
  value?.filter (· < base)

/-- The escapes of one letter. -/
def simpleEscape? : Char → Option Char
  | 'b' => some '\x08'
  | 't' => some '\t'
  | 'n' => some '\n'
  | 'f' => some '\x0c'
  | 'r' => some '\r'
  | '"' => some '"'
  | '\\' => some '\\'
  | _ => none

/-- How many digits an escape by number has. -/
def escapeDigits? : Char → Option Nat
  | 'u' => some 4
  | 'U' => some 8
  | _ => none

/-- The character with a number, unless it is a surrogate or out of range. -/
def charOf? (n : Nat) : Option Char :=
  if n.isValidChar then some (Char.ofNat n) else none

/-- Where in a string between double quotes the reading stands. -/
inductive StringSpot where
  | plain
  /-- Behind a backslash. -/
  | slash
  /-- Within an escape by number: its digits so far and how many are due. -/
  | number (value due : Nat)
  deriving DecidableEq, Repr, Inhabited

/-- Read a string on one line, between double quotes, up to its closing quote. -/
def basicFrom : StringSpot → Text → Option (Text × Text)
  | _, [] => none
  | .plain, c :: rest =>
    if c = '"' then some ([], rest)
    else if c = '\\' then basicFrom .slash rest
    else if isShown c then (basicFrom .plain rest).map fun (text, after) => (c :: text, after)
    else none
  | .slash, c :: rest =>
    match simpleEscape? c, escapeDigits? c with
    | some escaped, _ =>
      (basicFrom .plain rest).map fun (text, after) => (escaped :: text, after)
    | none, some due => basicFrom (.number 0 due) rest
    | none, none => none
  | .number value due, c :: rest => do
    let digit ← digit? 16 c
    let value := value * 16 + digit
    if 1 < due then basicFrom (.number value (due - 1)) rest
    else
      let escaped ← charOf? value
      (basicFrom .plain rest).map fun (text, after) => (escaped :: text, after)

/-- Read a string on one line, between single quotes, up to its closing quote. -/
def literalFrom : Text → Option (Text × Text)
  | [] => none
  | c :: rest =>
    if c = '\'' then some ([], rest)
    else if isShown c then (literalFrom rest).map fun (text, after) => (c :: text, after)
    else none

/-- Behind a run of `count` quotes in a string over several lines: how many of them belong to the
string when it ends there, or none when it goes on or the run is too long. -/
def closingQuotes? (count : Nat) : Option Nat :=
  if 3 ≤ count ∧ count ≤ 5 then some (count - 3) else none

/-- Read a string over several lines up to its closing quotes. Between double quotes backslashes
escape, and a backslash at the end of a line joins it to the next one. Every step takes a
character. -/
def linesWithin (quote : Char) (escapes : Bool) : Nat → Text → Option (Text × Text)
  | 0, _ => none
  | _ + 1, [] => none
  | bound + 1, c :: rest =>
    if c = quote then
      let count := ((c :: rest).takeWhile (· = quote)).length
      let after := (c :: rest).drop count
      if count < 3 then
        (linesWithin quote escapes bound after).map fun (text, after) =>
          (List.replicate count quote ++ text, after)
      else (closingQuotes? count).map fun kept => (List.replicate kept quote, after)
    else if escapes && c = '\\' then
      match behindLineEnd? (rest.dropWhile isBlank) with
      | some after => linesWithin quote escapes bound (blankLines after)
      | none =>
        match rest with
        | [] => none
        | d :: rest =>
          match simpleEscape? d, escapeDigits? d with
          | some escaped, _ =>
            (linesWithin quote escapes bound rest).map fun (text, after) =>
              (escaped :: text, after)
          | none, some due => do
            let digits ← (rest.take due).mapM (digit? 16)
            if digits.length < due then none
            else
              let escaped ← charOf? (digits.foldl (fun n digit => n * 16 + digit) 0)
              (linesWithin quote escapes bound (rest.drop due)).map fun (text, after) =>
                (escaped :: text, after)
          | none, none => none
    else
      match behindLineEnd? (c :: rest) with
      | some after =>
        (linesWithin quote escapes bound after).map fun (text, after) => ('\n' :: text, after)
      | none =>
        if isShown c then
          (linesWithin quote escapes bound rest).map fun (text, after) => (c :: text, after)
        else none

/-- Read a string over several lines behind its opening quotes; a line end right behind them is
no part of it. -/
def lines (quote : Char) (escapes : Bool) : Reader Text := fun text =>
  let text := (behindLineEnd? text).getD text
  linesWithin quote escapes (text.length + 1) text

/-- Read a string on one line, if one begins here. -/
def lineString : Reader Text := fun
  | '"' :: rest => basicFrom .plain rest
  | '\'' :: rest => literalFrom rest
  | _ => none

/-- Read a string of any form. -/
def string : Reader Text := fun
  | '"' :: '"' :: '"' :: rest => lines '"' true rest
  | '\'' :: '\'' :: '\'' :: rest => lines '\'' false rest
  | text => lineString text

/-! ## Keys -/

/-- The characters of a key without quotes. -/
def isBare (c : Char) : Bool := c.isAlphanum || c = '_' || c = '-'

/-- Read one part of a key. -/
def keyPart : Reader Text := fun text =>
  match text with
  | [] => none
  | c :: _ =>
    if c = '"' ∨ c = '\'' then lineString text
    else if isBare c then some (text.takeWhile isBare, text.dropWhile isBare)
    else none

/-- Read a key, the parts of which are joined by dots. Every part takes a character. -/
def keyWithin : Nat → Reader (List Text)
  | 0 => Reader.refuse
  | bound + 1 => do
    blanks
    let part ← keyPart
    blanks
    if ← Reader.sees ['.'] then
      Reader.word ['.']
      return part :: (← keyWithin bound)
    else return [part]

/-- Read a key. -/
def key : Reader (List Text) := fun text => keyWithin (text.length + 1) text

/-! ## Integers -/

/-- Read digits in a base, with single underscores between them. -/
def digitsFrom (base : Nat) : Text → Option (Nat × Text)
  | [] => none
  | c :: rest => do
    let first ← digit? base c
    go first rest
where
  /-- Read the digits behind others. -/
  go (value : Nat) : Text → Option (Nat × Text)
    | '_' :: c :: rest => do
      let digit ← digit? base c
      go (value * base + digit) rest
    | c :: rest =>
      match digit? base c with
      | some digit => go (value * base + digit) rest
      | none => if c = '_' then none else some (value, c :: rest)
    | [] => some (value, [])

/-- Read a decimal integer behind its sign: a zero alone, or digits that begin with another one. -/
def decimal : Text → Option (Nat × Text)
  | '0' :: rest => some (0, rest)
  | text => digitsFrom 10 text

/-- An integer of 64 bits with a sign. -/
def signed? (value : Int) : Option Int :=
  let bound := Int.pow 2 63
  if -bound ≤ value ∧ value < bound then some value else none

/-- Read an integer. -/
def integer : Reader Int := fun text => do
  let (value, rest) ←
    match text with
    | '0' :: 'x' :: rest => (digitsFrom 16 rest).map fun (n, rest) => ((n : Int), rest)
    | '0' :: 'o' :: rest => (digitsFrom 8 rest).map fun (n, rest) => ((n : Int), rest)
    | '0' :: 'b' :: rest => (digitsFrom 2 rest).map fun (n, rest) => ((n : Int), rest)
    | '-' :: rest => (decimal rest).map fun (n, rest) => (-(n : Int), rest)
    | '+' :: rest => (decimal rest).map fun (n, rest) => ((n : Int), rest)
    | _ => (decimal text).map fun (n, rest) => ((n : Int), rest)
  let value ← signed? value
  return (value, rest)

end Formulary.Toml
