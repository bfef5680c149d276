import Formulary.Json.Lexeme

/-!
# Reading JSON values

Values are read in the order of the text, and the first fault in that order is the one that is
reported. A reader that keeps what it reads takes a `room`: the number of lists and objects that
may still be opened within each other. Parts that nobody asks for are passed over by `skipValue`,
which needs no room and looks at them less closely.
-/

namespace Formulary.Json

/-- How many lists and objects may be nested within each other. -/
def nestingLimit : Nat := 127

/-! ## Values that hold no others -/

/-- Read a value that is neither a list nor an object and begins with `c`. -/
def readAtom (c : Char) : Reader Value :=
  if c = 'n' then do
    Reader.advance
    Reader.word "ull".toList
    return .null
  else if c = 't' then do
    Reader.advance
    Reader.word "rue".toList
    return .boolean true
  else if c = 'f' then do
    Reader.advance
    Reader.word "alse".toList
    return .boolean false
  else if c = '-' then do
    Reader.advance
    return .number (← readNumber true)
  else if c.isDigit then
    return .number (← readNumber false)
  else if c = '"' then do
    Reader.advance
    return .string (← readString)
  else Reader.fail .expectedValue

/-- Report the value that stands here in place of an expected one. -/
def unexpected {α : Type} (expected : Text) : Reader α := do
  let c ← Reader.peek .endInValue
  if c = '[' then Reader.fail (.wrongType .sequence expected)
  else if c = '\x7b' then Reader.fail (.wrongType .map expected)
  else
    let value ← readAtom c
    Reader.fail (.wrongType (Found.ofValue value) expected)

/-- Read a string. -/
def readText : Reader Text := do
  let c ← Reader.peek .endInValue
  if c = '"' then
    Reader.advance
    readString
  else unexpected "a string".toList

/-! ## Lists and objects -/

/-- Go to the next item of a list: false, behind the closing bracket, when there is none. -/
def nextItem (first : Bool) : Reader Bool := do
  let c ← Reader.peek .endInList
  if c = ']' then
    Reader.advance
    return false
  else if first then return true
  else if c = ',' then
    Reader.advance
    let d ← Reader.peek .endInValue
    if d = ']' then Reader.fail .trailingComma else return true
  else Reader.fail .expectedListEnd

/-- Read the items of a list up to its end. Every item takes a character, so `bound` is never
used up when it exceeds the length of the text. -/
def readItemsFrom {α : Type} (item : Reader α) : Nat → Bool → Reader (List α)
  | 0, _ => Reader.fail .endInValue
  | bound + 1, first => do
    if ← nextItem first then
      let value ← item
      let rest ← readItemsFrom item bound false
      return value :: rest
    else return []

/-- Read the items of a list behind its opening bracket. -/
def readItems {α : Type} (item : Reader α) : Reader (List α) := fun text =>
  readItemsFrom item (text.length + 1) true text

/-- Read the key of the next member of an object: none, behind the closing brace, when there is
none. -/
def nextKey (first : Bool) : Reader (Option Text) := do
  let c ← Reader.peek .endInObject
  if c = '\x7d' then
    Reader.advance
    return none
  else if first then
    if c = '"' then
      Reader.advance
      return some (← readString)
    else Reader.fail .keyNotString
  else if c = ',' then
    Reader.advance
    let d ← Reader.peek .endInValue
    if d = '"' then
      Reader.advance
      return some (← readString)
    else if d = '\x7d' then Reader.fail .trailingComma
    else Reader.fail .keyNotString
  else Reader.fail .expectedObjectEnd

/-- Read the colon behind a key. -/
def readColon : Reader Unit := do
  let c ← Reader.peek .endInObject
  if c = ':' then Reader.advance else Reader.fail .expectedColon

/-- Read the members of an object up to its end; `bound` as in `readItemsFrom`. -/
def readMembersFrom {α : Type} (item : Reader α) : Nat → Bool → Reader (List (Text × α))
  | 0, _ => Reader.fail .endInValue
  | bound + 1, first => do
    match ← nextKey first with
    | none => return []
    | some key =>
      readColon
      let value ← item
      let rest ← readMembersFrom item bound false
      return (key, value) :: rest

/-- Read the members of an object behind its opening brace. -/
def readMembers {α : Type} (item : Reader α) : Reader (List (Text × α)) := fun text =>
  readMembersFrom item (text.length + 1) true text

/-- Read a list of items; without a reader for them there is no room for the list. -/
def readList {α : Type} (item? : Option (Reader α)) : Reader (List α) := do
  let c ← Reader.peek .endInValue
  if c = '[' then
    match item? with
    | none => Reader.fail .tooDeep
    | some item =>
      Reader.advance
      readItems item
  else unexpected "a sequence".toList

/-- Read any value within the given room. -/
def readValue : Nat → Reader Value
  | 0 => do
    let c ← Reader.peek .endInValue
    if c = '[' ∨ c = '\x7b' then Reader.fail .tooDeep else readAtom c
  | room + 1 => do
    let c ← Reader.peek .endInValue
    if c = '[' then
      Reader.advance
      return .array (← readItems (readValue room))
    else if c = '\x7b' then
      Reader.advance
      return .object (Value.members (← readMembers (readValue room)))
    else readAtom c

/-! ## Values that are passed over -/

/-- What is open around a value that is passed over. -/
inductive Frame where
  | list
  | object
  deriving DecidableEq, Repr, Inhabited

/-- What is due next while values are passed over. -/
inductive Due where
  /-- A value. -/
  | value
  /-- The first item or the end of the innermost frame. -/
  | first
  /-- A comma or the end of the innermost frame. -/
  | next
  deriving DecidableEq, Repr, Inhabited

/-- Pass over a numeral behind its sign. -/
def skipNumeral : Reader Unit := do
  let _ ← readNumeral .badNumber

/-- Pass over a value that is neither a list nor an object and begins with `c`. -/
def skipAtom (c : Char) : Reader Unit :=
  if c = '-' then do
    Reader.advance
    skipNumeral
  else if c.isDigit then skipNumeral
  else if c = '"' then do
    Reader.advance
    skipString
  else do
    let _ ← readAtom c

/-- Pass over a key and its colon. -/
def skipKey : Reader Unit := do
  let c ← Reader.peek .endInObject
  if c = '"' then
    Reader.advance
    skipString
    readColon
  else Reader.fail .keyNotString

/-- The bracket that closes a frame. -/
def Frame.closing : Frame → Char
  | .list => ']'
  | .object => '\x7d'

/-- The fault of a text that ends within a frame. -/
def Frame.atEnd : Frame → Fault
  | .list => .endInList
  | .object => .endInObject

/-- The fault of a text that goes on otherwise than by a comma or the end of a frame. -/
def Frame.atOther : Frame → Fault
  | .list => .expectedListEnd
  | .object => .expectedObjectEnd

/-- Pass over what is due within the open frames, the innermost first. At least every second step
takes a character, which bounds their number. -/
def skipDue : Nat → Due → List Frame → Reader Unit
  | 0, _, _ => Reader.fail .endInValue
  | bound + 1, .value, frames => do
    let c ← Reader.peek .endInValue
    if c = '[' then
      Reader.advance
      skipDue bound .first (.list :: frames)
    else if c = '\x7b' then
      Reader.advance
      skipDue bound .first (.object :: frames)
    else
      skipAtom c
      skipDue bound .next frames
  | _ + 1, _, [] => return ()
  | bound + 1, due, frame :: frames => do
    let c ← Reader.peek frame.atEnd
    if c = frame.closing then
      Reader.advance
      skipDue bound .next frames
    else if due = .first ∨ c = ',' then
      if due = .next then Reader.advance
      if frame = .object then skipKey
      skipDue bound .value (frame :: frames)
    else Reader.fail frame.atOther

/-- Pass over any value. -/
def skipValue : Reader Unit := fun text => skipDue (2 * text.length + 2) .value [] text

/-! ## Whole texts -/

/-- Read a text that holds one value and nothing else. -/
def readWholeText {α : Type} (value : Reader α) (text : Text) : Except Fault α := do
  let (result, rest) ← value text
  match rest.dropWhile Reader.isBlank with
  | [] => return result
  | _ :: _ => .error .trailingCharacters

end Formulary.Json
