import Formulary.Json.Number

/-!
# JSON values

A value of any shape, for the parts of a response that are kept as they are or read later. The
members of an object are sorted by key and no key occurs twice: a later member replaces an
earlier one (`Value.insert`).
-/

namespace Formulary.Json

/-- A JSON value. -/
inductive Value where
  | null
  | boolean (value : Bool)
  | number (value : Number)
  | string (value : Text)
  | array (items : List Value)
  | object (members : List (Text × Value))
  deriving Repr, Inhabited

namespace Value

/-- Put a member into its place among sorted members, or replace the one with its key. -/
def insert (key : Text) (value : Value) : List (Text × Value) → List (Text × Value)
  | [] => [(key, value)]
  | (other, held) :: rest =>
    if key < other then (key, value) :: (other, held) :: rest
    else if key = other then (key, value) :: rest
    else (other, held) :: insert key value rest

/-- The sorted members of a list in which a later member replaces an earlier one. -/
def members (entries : List (Text × Value)) : List (Text × Value) :=
  entries.foldl (fun sorted (key, value) => insert key value sorted) []

mutual

/-- How many values are nested in each other, the value itself included. -/
def height : Value → Nat
  | .array items => itemsHeight items + 1
  | .object members => membersHeight members + 1
  | _ => 1

/-- The greatest height of the items of an array. -/
def itemsHeight : List Value → Nat
  | [] => 0
  | item :: rest => max item.height (itemsHeight rest)

/-- The greatest height of the members of an object. -/
def membersHeight : List (Text × Value) → Nat
  | [] => 0
  | (_, item) :: rest => max item.height (membersHeight rest)

end

end Value

end Formulary.Json
