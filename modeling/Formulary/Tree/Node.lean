import Formulary.Json.Printer
import Formulary.Tree.Tag

/-!
# Expression trees

A node has a kind, perhaps a value, operands (its `children`) and, in a localized template,
arguments (its `args`). The kind is any text: a node of a kind without a tag is legal and is shown
as it is. `Node.dump` is the compact JSON text of a tree; fields that are empty are left out.
-/

namespace Formulary

/-- The value of a node: a text or a number. -/
inductive Literal where
  | text (content : Text)
  | number (content : Json.Number)
  deriving DecidableEq, Repr, Inhabited

namespace Literal

/-- The value as text; a number has its JSON form. -/
def asText : Literal → Text
  | .text content => content
  | .number content => content.text

/-- The JSON text of a value. -/
def dump : Literal → Text
  | .text content => Json.printString content
  | .number content => content.text

end Literal

/-- A node of an expression tree. -/
structure Node where
  kind : Text
  value : Option Literal := none
  children : List Node := []
  args : List Node := []
  deriving BEq, Repr, Inhabited

namespace Node

/-- A node with operands. -/
def ofChildren (kind : Text) (children : List Node) : Node := { kind, children }

/-- A node with a value. -/
def leaf (kind : Text) (value : Literal) : Node := { kind, value := some value }

/-- The node with other arguments. -/
def withArgs (node : Node) (args : List Node) : Node := { node with args }

/-- The node wrapped `times` times as the only child of a node of the given kind. -/
def wrapped (kind : Text) (times : Nat) (node : Node) : Node :=
  times.repeat (fun inner => ofChildren kind [inner]) node

/-- The tag of a node, if its kind has one. -/
def tag? (node : Node) : Option Tag := Tag.ofName? node.kind

/-- The value of a node as text. -/
def text? (node : Node) : Option Text := node.value.map Literal.asText

mutual

/-- How many nodes are nested in each other, through children and arguments. -/
def height : Node → Nat
  | ⟨_, _, children, args⟩ => max (forestHeight children) (forestHeight args) + 1

/-- The greatest height of the nodes of a list. -/
def forestHeight : List Node → Nat
  | [] => 0
  | node :: rest => max node.height (forestHeight rest)

end

/-! ## The dump of a tree

Every function here takes the text that follows, so that a deep tree is written in one pass. -/

/-- The member with the value of a node, if there is one, before what follows. -/
def valueBefore : Option Literal → Text → Text
  | none, after => after
  | some literal, after => ",\"value\":".toList ++ (literal.dump ++ after)

mutual

/-- The compact JSON text of a tree, before what follows. -/
def dumpBefore : Node → Text → Text
  | ⟨kind, value, children, args⟩, after =>
    '\x7b' :: ("\"type\":".toList ++ (Json.printString kind ++
      valueBefore value
        (listBefore ",\"children\":".toList children
          (listBefore ",\"args\":".toList args ('\x7d' :: after)))))

/-- The member that lists nodes, unless there are none, before what follows. -/
def listBefore (member : Text) : List Node → Text → Text
  | [], after => after
  | node :: rest, after =>
    member ++ '[' :: node.dumpBefore (itemsBefore rest (']' :: after))

/-- The items of a list behind its first, before what follows. -/
def itemsBefore : List Node → Text → Text
  | [], after => after
  | node :: rest, after => ',' :: node.dumpBefore (itemsBefore rest after)

end

/-- The compact JSON text of a tree. -/
def dump (node : Node) : Text := node.dumpBefore []

end Node

end Formulary
