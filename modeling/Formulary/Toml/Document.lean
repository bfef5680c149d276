import Formulary.Toml.Lexeme

/-!
# Settings documents

A document is a sequence of lines that put values into tables. Of the values of TOML only those
are read that a setting can take: strings, integers, booleans, lists and tables within a line. A
document with any other value, or with a list of tables, says nothing that a setting can take, and
is refused as a whole.

`read` gives the table of a document. A key is defined once; a table that a header opens is not
opened again, and the tables that dotted keys make are only extended by dotted keys.
-/

namespace Formulary.Toml

/-- How a table came to be. -/
inductive Origin where
  /-- Written within a line. -/
  | inline
  /-- Opened by its header. -/
  | header
  /-- Made for a header further down. -/
  | implied
  /-- Made for a dotted key. -/
  | dotted
  deriving DecidableEq, Repr, Inhabited

/-- A value of a settings document. -/
inductive Item where
  | string (content : Text)
  | integer (value : Int)
  | boolean (value : Bool)
  | list (items : List Item)
  | table (origin : Origin) (entries : List (Text × Item))
  deriving Repr, Inhabited

/-- The entries of a table. -/
abbrev Table := List (Text × Item)

namespace Table

/-- Change the entry of a key, or make one; a change may be refused. -/
def alter (key : Text) (change : Option Item → Option Item) : Table → Option Table
  | [] => (change none).map fun item => [(key, item)]
  | (other, item) :: rest =>
    if other = key then (change (some item)).map fun item => (other, item) :: rest
    else (alter key change rest).map ((other, item) :: ·)

/-- Define the value of a key, which is refused when it has one. The parts of the key before the
last lead through tables made for dotted keys. -/
def define (item : Item) : List Text → Table → Option Table
  | [], _ => none
  | [key], table => table.alter key fun
    | none => some item
    | some _ => none
  | key :: rest, table => table.alter key fun
    | none => (define item rest []).map (.table .dotted)
    | some (.table .dotted entries) => (define item rest entries).map (.table .dotted)
    | some _ => none

/-- Open the table of a header. -/
def openHeader : List Text → Table → Option Table
  | [], _ => none
  | [key], table => table.alter key fun
    | none => some (.table .header [])
    | some (.table .implied entries) => some (.table .header entries)
    | some _ => none
  | key :: rest, table => table.alter key fun
    | none => (openHeader rest []).map (.table .implied)
    | some (.table .inline _) => none
    | some (.table origin entries) => (openHeader rest entries).map (.table origin)
    | some _ => none

/-- Change the table that a path leads to. -/
def within (change : Table → Option Table) : List Text → Table → Option Table
  | [], table => change table
  | key :: rest, table => table.alter key fun
    | some (.table origin entries) => (within change rest entries).map (.table origin)
    | _ => none

/-- The table of pairs of keys and values, in their order. -/
def ofPairs (pairs : List (List Text × Item)) : Option Table :=
  pairs.foldlM (fun table (key, item) => table.define item key) []

end Table

/-! ## Values -/

/-- Read what stands between an opening and a closing bracket: items with commas between them.
`trailing` allows a comma behind the last item. Every item takes a character. -/
def itemsWithin {α : Type} (item : Reader α) (space : Reader Unit) (closing : Char)
    (trailing : Bool) : Nat → Reader (List α)
  | 0 => Reader.refuse
  | bound + 1 => do
    let first ← item
    space
    if ← Reader.sees [','] then
      Reader.word [',']
      space
      if trailing && (← Reader.sees [closing]) then return [first]
      else return first :: (← itemsWithin item space closing trailing bound)
    else return [first]

/-- Read the items of a list or a table behind the opening bracket. -/
def items {α : Type} (item : Reader α) (space : Reader Unit) (closing : Char)
    (trailing : Bool) : Reader (List α) := do
  space
  if ← Reader.sees [closing] then
    Reader.word [closing]
    return []
  else
    let read ← fun text => itemsWithin item space closing trailing (text.length + 1) text
    Reader.word [closing]
    return read

/-- Read a key, an equals sign and a value. -/
def pair (value : Reader Item) : Reader (List Text × Item) := do
  let path ← key
  Reader.word ['=']
  blanks
  return (path, ← value)

/-- Read a value, with the given room for values within values. -/
def value : Nat → Reader Item
  | 0 => Reader.refuse
  | room + 1 => fun text =>
    match text with
    | [] => none
    | c :: rest =>
      if c = '"' ∨ c = '\'' then (string text).map fun (s, rest) => (.string s, rest)
      else if c = '[' then
        (items (value room) gap ']' true rest).map fun (list, rest) => (.list list, rest)
      else if c = '\x7b' then do
        let (pairs, rest) ← items (pair (value room)) blanks '\x7d' false rest
        let entries ← Table.ofPairs pairs
        return (.table .inline entries, rest)
      else if c = 't' then
        (Reader.word "true".toList text).map fun (_, rest) => (.boolean true, rest)
      else if c = 'f' then
        (Reader.word "false".toList text).map fun (_, rest) => (.boolean false, rest)
      else (integer text).map fun (n, rest) => (.integer n, rest)

/-! ## Lines -/

/-- What a line says. -/
inductive Line where
  | empty
  | header (path : List Text)
  | pair (path : List Text) (item : Item)
  deriving Repr, Inhabited

/-- Read a line and its end. -/
def line : Reader Line := do
  blanks
  if ← Reader.sees ['['] then
    Reader.word ['[']
    let path ← key
    Reader.word [']']
    restOfLine
    return .header path
  else if (← Reader.sees ['#']) || (← Reader.sees ['\n']) || (← Reader.sees ['\r']) ||
      (← Reader.atEnd) then
    restOfLine
    return .empty
  else
    let (path, item) ← fun text => pair (value (text.length + 1)) text
    restOfLine
    return .pair path item

/-- Read lines up to the end of the text; every line takes a character. -/
def linesToEnd : Nat → Reader (List Line)
  | 0 => Reader.refuse
  | bound + 1 => do
    if ← Reader.atEnd then return []
    else
      let first ← line
      return first :: (← linesToEnd bound)

/-- The table of a list of lines; `path` is the header that the lines stand under. -/
def tableOfLines : List Line → List Text → Table → Option Table
  | [], _, table => some table
  | .empty :: rest, path, table => tableOfLines rest path table
  | .header path :: rest, _, table => do tableOfLines rest path (← table.openHeader path)
  | .pair key item :: rest, path, table => do
    tableOfLines rest path (← table.within (Table.define item key) path)

/-- A text without the byte order mark that may stand before it. -/
def withoutMark : Text → Text
  | '\ufeff' :: rest => rest
  | text => text

/-- Read the table of a settings document. -/
def read (text : Text) : Option Table := do
  let text := withoutMark text
  let (lines, _) ← linesToEnd (text.length + 1) text
  tableOfLines lines [] []

end Formulary.Toml
