import Formulary.Json.Record
import Formulary.Tree.Shape

/-!
# Trees from JSON

A node is a record with the fields `type`, `value`, `children` and `args`, of which only the first
is required. It is read from a text (`Node.readWithin`) or taken from a value that has been read
before (`Node.ofValue`). `Node.ofJson` reads a whole text and checks the shape of the tree.
-/

namespace Formulary

open Json (Reader Decoder Fault Record Value)

/-- The literal that a JSON value is, if it is one. -/
def Literal.ofValue? : Value → Option Literal
  | .string content => some (.text content)
  | .number content => some (.number content)
  | _ => none

namespace Node

/-- The fault of a value that is no literal. -/
def notLiteral : Fault := .noVariant "Literal".toList

/-- The record type of a node, given how its fields are read. -/
def record {m : Type → Type} [Monad m] (text : m Text) (literal : m (Option Literal))
    (nodes : m (List Node)) : Record m Node where
  name := "Node".toList
  blank := { kind := [] }
  fields := [
    { name := "type".toList, read := do
        let kind ← text
        return fun node => { node with kind } },
    { name := "value".toList, required := false, read := do
        let value ← literal
        return fun node => { node with value } },
    { name := "children".toList, required := false, read := do
        let children ← nodes
        return fun node => { node with children } },
    { name := "args".toList, required := false, read := do
        let args ← nodes
        return fun node => { node with args } }]

/-! ## From a text -/

/-- Read the value of a node; `null` is none. -/
def readLiteral (room : Nat) : Reader (Option Literal) := do
  let c ← Reader.peek .endInValue
  if c = 'n' then
    let _ ← Json.readAtom c
    return none
  else
    match Literal.ofValue? (← Json.readValue room) with
    | some literal => return some literal
    | none => Reader.fail notLiteral

/-- Read a node within the given room. A node takes two levels of it: one for itself and one for
the list of its children. -/
def readWithin : Nat → Reader Node
  | 0 => Json.readRecord "Node".toList none
  | 1 =>
    Json.readRecord "Node".toList
      (some (record Json.readText (readLiteral 0) (Json.readList none)))
  | room + 2 =>
    Json.readRecord "Node".toList
      (some (record Json.readText (readLiteral (room + 1))
        (Json.readList (some (readWithin room)))))

/-! ## From a value -/

/-- Take the value of a node; `null` is none. -/
def takeLiteral : Decoder (Option Literal)
  | .null => .ok none
  | value =>
    match Literal.ofValue? value with
    | some literal => .ok (some literal)
    | none => .error notLiteral

/-- Take a node from a value that nests at most so many values. -/
def ofValueWithin : Nat → Decoder Node
  | 0 => fun _ => .error .tooDeep
  | height + 1 =>
    Value.toRecord (record Value.toText takeLiteral (Value.toList (ofValueWithin height)))

/-- Take a node from a value. -/
def ofValue : Decoder Node := fun value => ofValueWithin value.height value

/-! ## Whole trees -/

/-- Read a text that holds a node. -/
def decode (text : Text) : Except Fault Node :=
  Json.readWholeText (readWithin Json.nestingLimit) text

/-- Read a text that holds a node and check the shape of the tree. -/
def ofJson (text : Text) : Except Failure Node := do
  let node ← (decode text).mapError fun fault => .decode (.json fault)
  node.validate.mapError .render
  return node

end Node

end Formulary
