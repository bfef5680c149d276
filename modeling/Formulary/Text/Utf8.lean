import Formulary.Text.Basic

/-!
# Text from bytes

Bytes are read as UTF-8 from the left. A stretch that begins like a character and is not one is a
gap, as long as it can be and at least one byte long (`Utf8.scan`). Text in which every stretch is a
character is read exactly (`Utf8.decode?`); where gaps are tolerated, each becomes the replacement
character (`Utf8.decodeLossy`).
-/

namespace Formulary.Utf8

/-- Where in a character the reading stands: between characters, or within one, with the bits read
so far, how many bytes are due, and the least and the greatest next byte. -/
inductive Spot where
  | between
  | within (bits due : Nat) (low high : UInt8)
  deriving DecidableEq, Repr, Inhabited

/-- What a byte between characters means: a character of its own, the first byte of a longer one,
or nothing. -/
inductive First where
  | whole (c : Char)
  | start (spot : Spot)
  | stray
  deriving DecidableEq, Repr, Inhabited

/-- What a byte between characters means. -/
def first (b : UInt8) : First :=
  let bits := b.toNat
  if b < 0x80 then .whole (Char.ofNat bits)
  else if b < 0xC2 then .stray
  else if b < 0xE0 then .start (.within (bits - 0xC0) 1 0x80 0xBF)
  else if b = 0xE0 then .start (.within 0 2 0xA0 0xBF)
  else if b = 0xED then .start (.within 0xD 2 0x80 0x9F)
  else if b < 0xF0 then .start (.within (bits - 0xE0) 2 0x80 0xBF)
  else if b = 0xF0 then .start (.within 0 3 0x90 0xBF)
  else if b < 0xF4 then .start (.within (bits - 0xF0) 3 0x80 0xBF)
  else if b = 0xF4 then .start (.within 4 3 0x80 0x8F)
  else .stray

/-- The characters of a list of bytes, with `none` for each gap. -/
def scanFrom : Spot → List UInt8 → List (Option Char)
  | .between, [] => []
  | .within .., [] => [none]
  | .between, b :: rest =>
    match first b with
    | .whole c => some c :: scanFrom .between rest
    | .start spot => scanFrom spot rest
    | .stray => none :: scanFrom .between rest
  | .within bits due low high, b :: rest =>
    if low ≤ b ∧ b ≤ high then
      let bits := bits * 0x40 + (b.toNat - 0x80)
      if 1 < due then scanFrom (.within bits (due - 1) 0x80 0xBF) rest
      else some (Char.ofNat bits) :: scanFrom .between rest
    else
      match first b with
      | .whole c => none :: some c :: scanFrom .between rest
      | .start spot => none :: scanFrom spot rest
      | .stray => none :: none :: scanFrom .between rest

/-- The characters of a list of bytes, with `none` for each gap. -/
def scan (bytes : List UInt8) : List (Option Char) := scanFrom .between bytes

/-- The text of bytes without gaps. -/
def decode? (bytes : List UInt8) : Option Text := (scan bytes).mapM id

/-- The text of bytes, with the replacement character for each gap. -/
def decodeLossy (bytes : List UInt8) : Text := (scan bytes).map (·.getD '\ufffd')

end Formulary.Utf8
