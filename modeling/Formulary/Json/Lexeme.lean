import Formulary.Json.Fault

/-!
# The lexemes of a JSON text

A `Reader` takes what it reads from the front of a text and leaves the rest, or stops at the first
fault. This module reads blanks, words, strings and numerals:

* `readString` reads a string behind its opening quote, one character at a time; a `StringState`
  says how far an escape has come;
* `readNumeral` reads the parts of a numeral, `Number.ofNumeral?` gives their value.
-/

namespace Formulary.Json

/-- A reader takes a value from the front of a text. -/
abbrev Reader := StateT Text (Except Fault)

namespace Reader

/-- Stop with a fault. -/
def fail {α : Type} (fault : Fault) : Reader α := fun _ => .error fault

/-- Blanks between lexemes. -/
def isBlank (c : Char) : Bool := c = ' ' || c = '\n' || c = '\t' || c = '\r'

/-- Pass over blanks and look at the next character; a text that ends here has the given fault. -/
def peek (atEnd : Fault) : Reader Char := fun text =>
  match text.dropWhile isBlank with
  | [] => .error atEnd
  | c :: rest => .ok (c, c :: rest)

/-- Pass over one character. -/
def advance : Reader Unit := fun text => .ok ((), text.tail)

/-- Read the given letters of a word. -/
def word : Text → Reader Unit
  | [] => pure ()
  | c :: letters => fun
    | [] => .error .endInValue
    | d :: rest => if c = d then word letters rest else .error .expectedWord

end Reader

/-! ## Strings -/

/-- How far an escape in a string has come. -/
inductive StringState where
  /-- Outside an escape. -/
  | plain
  /-- Behind a backslash. -/
  | slash
  /-- Within the four digits of a unit: those read so far, how many are due, and the leading
  surrogate that came before. -/
  | unit (value due : Nat) (leading : Option Nat)
  /-- Behind a leading surrogate. -/
  | surrogate (leading : Nat)
  /-- Behind a leading surrogate and a backslash. -/
  | surrogateSlash (leading : Nat)
  deriving DecidableEq, Repr, Inhabited

/-- The escapes of one letter. -/
def simpleEscape? : Char → Option Char
  | '"' => some '"'
  | '\\' => some '\\'
  | '/' => some '/'
  | 'b' => some '\x08'
  | 'f' => some '\x0c'
  | 'n' => some '\n'
  | 'r' => some '\r'
  | 't' => some '\t'
  | _ => none

/-- The value of a digit in base sixteen. -/
def hexDigit? (c : Char) : Option Nat :=
  if '0' ≤ c ∧ c ≤ '9' then some (c.toNat - '0'.toNat)
  else if 'a' ≤ c ∧ c ≤ 'f' then some (c.toNat - 'a'.toNat + 10)
  else if 'A' ≤ c ∧ c ≤ 'F' then some (c.toNat - 'A'.toNat + 10)
  else none

/-- Leading surrogates. -/
def isLeading (unit : Nat) : Bool := 0xD800 ≤ unit && unit ≤ 0xDBFF

/-- Trailing surrogates. -/
def isTrailing (unit : Nat) : Bool := 0xDC00 ≤ unit && unit ≤ 0xDFFF

/-- The character of a pair of surrogates. -/
def pairChar (leading trailing : Nat) : Char :=
  Char.ofNat ((leading - 0xD800) * 0x400 + (trailing - 0xDC00) + 0x10000)

/-- The text is too short, in bytes, to hold the four digits of a unit. -/
def lacksUnit (text : Text) : Bool := (text.map Char.utf8Size).foldr (· + ·) 0 < 4

/-- Read a string up to its closing quote. A `strict` reading wants surrogates in pairs; a reading
that only passes over the string does not look at them. -/
def readStringFrom (strict : Bool) : StringState → Text → Except Fault (Text × Text)
  | _, [] => .error .endInString
  | .plain, c :: rest =>
    if c = '"' then .ok ([], rest)
    else if c = '\\' then readStringFrom strict .slash rest
    else if c.val < 0x20 then .error .controlCharacter
    else do
      let (text, after) ← readStringFrom strict .plain rest
      return (c :: text, after)
  | .slash, c :: rest =>
    if c = 'u' then
      if lacksUnit rest then .error .endInString
      else readStringFrom strict (.unit 0 4 none) rest
    else
      match simpleEscape? c with
      | none => .error .badEscape
      | some escaped => do
        let (text, after) ← readStringFrom strict .plain rest
        return (escaped :: text, after)
  | .unit value due leading, c :: rest =>
    match hexDigit? c with
    | none => .error .badEscape
    | some digit =>
      let value := value * 16 + digit
      if 1 < due then readStringFrom strict (.unit value (due - 1) leading) rest
      else if !strict then readStringFrom strict .plain rest
      else
        match leading with
        | none =>
          if isTrailing value then .error .loneSurrogate
          else if isLeading value then readStringFrom strict (.surrogate value) rest
          else do
            let (text, after) ← readStringFrom strict .plain rest
            return (Char.ofNat value :: text, after)
        | some lead =>
          if isTrailing value then do
            let (text, after) ← readStringFrom strict .plain rest
            return (pairChar lead value :: text, after)
          else .error .loneSurrogate
  | .surrogate leading, c :: rest =>
    if c = '\\' then readStringFrom strict (.surrogateSlash leading) rest
    else .error .unfinishedSurrogate
  | .surrogateSlash leading, c :: rest =>
    if c = 'u' then
      if lacksUnit rest then .error .endInString
      else readStringFrom strict (.unit 0 4 (some leading)) rest
    else .error .unfinishedSurrogate

/-- Read a string behind its opening quote. -/
def readString : Reader Text := readStringFrom true .plain

/-- Pass over a string behind its opening quote. -/
def skipString : Reader Unit := fun text => do
  let (_, after) ← readStringFrom false .plain text
  return ((), after)

/-! ## Numerals -/

/-- The parts of an unsigned numeral. -/
structure Numeral where
  whole : Text
  fraction : Option Text := none
  /-- Whether the exponent is negative, and its digits. -/
  exponent : Option (Bool × Text) := none
  deriving DecidableEq, Repr, Inhabited

/-- Read one or more digits; a text that ends before the first has the given fault. -/
def readDigits (atEnd : Fault) : Reader Text := fun text =>
  match text with
  | [] => .error atEnd
  | c :: _ =>
    if c.isDigit then .ok (text.takeWhile Char.isDigit, text.dropWhile Char.isDigit)
    else .error .badNumber

/-- Read the whole part of a numeral: a zero alone, or digits that begin with another one. -/
def readWhole (atEnd : Fault) : Reader Text := fun text => do
  let (digits, rest) ← readDigits atEnd text
  if digits.head? = some '0' ∧ digits ≠ ['0'] then .error .badNumber
  else return (digits, rest)

/-- Read the fraction of a numeral, if there is one. -/
def readFraction (atEnd : Fault) : Reader (Option Text) := fun
  | '.' :: rest => do
    let (digits, rest) ← readDigits atEnd rest
    return (some digits, rest)
  | text => .ok (none, text)

/-- The sign of an exponent: whether it is negative, and the rest. -/
def exponentSign : Text → Bool × Text
  | '+' :: rest => (false, rest)
  | '-' :: rest => (true, rest)
  | text => (false, text)

/-- Read the exponent of a numeral, if there is one. -/
def readExponent (atEnd : Fault) : Reader (Option (Bool × Text)) := fun
  | c :: rest =>
    if c = 'e' ∨ c = 'E' then do
      let (negative, rest) := exponentSign rest
      let (digits, rest) ← readDigits atEnd rest
      return (some (negative, digits), rest)
    else .ok (none, c :: rest)
  | [] => .ok (none, [])

/-- Read a numeral behind its sign; a text that ends within it has the given fault. -/
def readNumeral (atEnd : Fault) : Reader Numeral := do
  let whole ← readWhole atEnd
  let fraction ← readFraction atEnd
  let exponent ← readExponent atEnd
  return ⟨whole, fraction, exponent⟩

/-- The value of a digit. -/
def digitValue (c : Char) : Nat := c.toNat - '0'.toNat

/-- The value of a run of digits. -/
def digitsValue (digits : Text) : Nat := digits.foldl (fun n c => n * 10 + digitValue c) 0

/-- Take digits into a significand as long as it fits 64 bits; the digits that do not are left. -/
def takeDigits : Nat → Text → Nat × Text
  | significand, [] => (significand, [])
  | significand, c :: rest =>
    let next := significand * 10 + digitValue c
    if next < Number.unsignedBound then takeDigits next rest else (significand, c :: rest)

/-- The number with a sign and a decimal magnitude, or none out of range. -/
def Number.ofDecimal? (negative : Bool) (significand : Nat) (exponent : Int) : Option Number :=
  (Decimal.Binary.ofDecimal significand exponent).map (.binary negative)

/-- The number that a numeral without fraction and exponent denotes. -/
def Number.ofWhole? (negative : Bool) (whole : Text) : Option Number :=
  let (significand, left) := takeDigits 0 whole
  if left ≠ [] then Number.ofDecimal? negative significand left.length
  else if !negative then some (.integer significand)
  else if 0 < significand ∧ significand ≤ Number.signedBound then some (.integer (-significand))
  else Number.ofDecimal? true significand 0

/-- The number that a numeral denotes, or none when its magnitude is out of range. -/
def Number.ofNumeral? (negative : Bool) (numeral : Numeral) : Option Number :=
  match numeral.fraction, numeral.exponent with
  | none, none => Number.ofWhole? negative numeral.whole
  | fraction, exponent =>
    let (leading, left) := takeDigits 0 numeral.whole
    let digits := fraction.getD []
    let (significand, unused) := takeDigits leading digits
    let places : Int := left.length - (digits.length - unused.length : Nat)
    let scale : Int := match exponent with
      | none => 0
      | some (true, digits) => -digitsValue digits
      | some (false, digits) => digitsValue digits
    Number.ofDecimal? negative significand (places + scale)

/-- Read a number behind its sign. -/
def readNumber (negative : Bool) : Reader Number := do
  let numeral ← readNumeral .endInValue
  match Number.ofNumeral? negative numeral with
  | some number => return number
  | none => Reader.fail .numberOutOfRange

end Formulary.Json
