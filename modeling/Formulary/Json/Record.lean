import Formulary.Json.Reader

/-!
# Records

A record has named fields. In JSON it is an object whose members are its fields, in any order and
among members that are passed over, or a list of its fields in the order of their declaration. A
field that is not required has a default.

The same `Field`s serve two sources: a text that is being read (`readRecord`) and a value that has
been read before (`Value.toRecord`). They differ in what a fault is called when a list is too
long, and in the order in which members are seen.
-/

namespace Formulary.Json

/-- A field of a record: its key, whether it must be given, and how it is read. Reading a field
gives the change that it makes to the record. -/
structure Field (m : Type → Type) (α : Type) where
  name : Text
  required : Bool := true
  read : m (α → α)

/-- A record type: what it is called, the record before any field is read, and its fields. -/
structure Record (m : Type → Type) (α : Type) where
  name : Text
  blank : α
  fields : List (Field m α)

namespace Record

variable {m : Type → Type} {α : Type}

/-- What a message calls the record. -/
def expected (record : Record m α) : Text := "struct ".toList ++ record.name

/-- What a message calls the record in the form of a list. -/
def expectedList (record : Record m α) : Text :=
  record.expected ++ " with ".toList ++ Text.ofNat record.fields.length ++
    (if record.fields.length = 1 then " element" else " elements").toList

/-- The field with a key. -/
def field? (record : Record m α) (key : Text) : Option (Field m α) :=
  record.fields.find? fun field => field.name = key

/-- The first required field that is not among the given keys. -/
def missing? (record : Record m α) (keys : List Text) : Option Text :=
  (record.fields.find? fun field => field.required && !keys.contains field.name).map Field.name

/-- A record all of whose required fields are among the given keys. -/
def complete (record : Record m α) (keys : List Text) (value : α) : Except Fault α :=
  match record.missing? keys with
  | some name => .error (.missingField name)
  | none => .ok value

end Record

/-! ## From a text -/

/-- Read the members of a record up to the end of the object. `seen` holds the keys of the fields
read before; `bound` as in `readItemsFrom`. -/
def readFieldsFrom {α : Type} (record : Record Reader α) :
    Nat → Bool → List Text → α → Reader α
  | 0, _, _, _ => Reader.fail .endInValue
  | bound + 1, first, seen, value => do
    match ← nextKey first with
    | none => StateT.lift (record.complete seen value)
    | some key =>
      match record.field? key with
      | none =>
        readColon
        skipValue
        readFieldsFrom record bound false seen value
      | some field =>
        if seen.contains key then Reader.fail (.duplicateField key)
        else
          readColon
          let change ← field.read
          readFieldsFrom record bound false (key :: seen) (change value)

/-- Read the end of a list all of whose items have been read. -/
def readListEnd : Reader Unit := do
  let c ← Reader.peek .endInList
  if c = ']' then Reader.advance
  else if c = ',' then
    Reader.advance
    fun text =>
      match text.dropWhile Reader.isBlank with
      | ']' :: _ => .error .trailingComma
      | _ => .error .trailingCharacters
  else Reader.fail .trailingCharacters

/-- Read fields from the items of a list; `index` counts those read before. When the list ends
early, the other fields keep their defaults. -/
def readFieldItems {α : Type} (record : Record Reader α) :
    List (Field Reader α) → Nat → α → Reader α
  | [], _, value => do
    readListEnd
    return value
  | field :: rest, index, value => do
    if ← nextItem (index = 0) then
      let change ← field.read
      readFieldItems record rest (index + 1) (change value)
    else
      match (field :: rest).findIdx? Field.required with
      | some ahead => Reader.fail (.wrongLength (index + ahead) record.expectedList)
      | none => return value

/-- Read a record; without its type there is no room for it. -/
def readRecord {α : Type} (name : Text) (record? : Option (Record Reader α)) : Reader α := do
  let c ← Reader.peek .endInValue
  if c = '[' then
    match record? with
    | none => Reader.fail .tooDeep
    | some record =>
      Reader.advance
      readFieldItems record record.fields 0 record.blank
  else if c = '\x7b' then
    match record? with
    | none => Reader.fail .tooDeep
    | some record =>
      Reader.advance
      fun text => readFieldsFrom record (text.length + 1) true [] record.blank text
  else unexpected ("struct ".toList ++ name)

/-! ## From a value -/

/-- What is taken from a value that has been read before. -/
abbrev Decoder := ReaderT Value (Except Fault)

namespace Value

/-- Report a value in place of an expected one. -/
def unexpected {α : Type} (expected : Text) (value : Value) : Except Fault α :=
  .error (.wrongType (Found.ofValue value) expected)

/-- Take a string. -/
def toText : Decoder Text
  | .string text => .ok text
  | value => value.unexpected "a string".toList

/-- Take a list. -/
def toList {α : Type} (item : Decoder α) : Decoder (List α)
  | .array items => items.mapM item
  | value => value.unexpected "a sequence".toList

/-- Take the fields of a record from members, in the order of the members. -/
def takeMembers {α : Type} (record : Record Decoder α) :
    List (Text × Value) → α → Except Fault α
  | [], value => .ok value
  | (key, item) :: rest, value =>
    match record.field? key with
    | none => takeMembers record rest value
    | some field => do
      let change ← field.read item
      takeMembers record rest (change value)

/-- Take the fields of a record from items; `length` is the length of the whole list and `index`
counts the fields taken before. -/
def takeItems {α : Type} (record : Record Decoder α) (length : Nat) :
    List (Field Decoder α) → List Value → Nat → α → Except Fault α
  | [], [], _, value => .ok value
  | [], _ :: _, _, _ => .error (.wrongLength length "fewer elements in array".toList)
  | field :: fields, [], index, value =>
    match (field :: fields).findIdx? Field.required with
    | some ahead => .error (.wrongLength (index + ahead) record.expectedList)
    | none => .ok value
  | field :: fields, item :: items, index, value => do
    let change ← field.read item
    takeItems record length fields items (index + 1) (change value)

/-- Take a record. -/
def toRecord {α : Type} (record : Record Decoder α) : Decoder α
  | .array items => takeItems record items.length record.fields items 0 record.blank
  | .object members => do
    let value ← takeMembers record members record.blank
    record.complete (members.map Prod.fst) value
  | value => value.unexpected record.expected

end Value

end Formulary.Json
