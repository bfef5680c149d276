import Formulary.Render.Layout
import Formulary.Tree.Shape

/-!
# What a node asks for

Before any operand of a node is rendered, its shape is checked and its layout is chosen. The
result is a `Plan`: markup that needs no operand, a dump of the node, operands and how their markup
is put together, or a template and its arguments. `Node.plan` gives the plan or the failure that
precedes all others of the node.
-/

namespace Formulary

/-- What a node asks for. -/
inductive Plan where
  /-- Nothing; this is its markup. -/
  | write (markup : Text)
  /-- To be dumped, since its kind has no layout. -/
  | dump
  /-- The markup of operands, in order, to be put together. -/
  | operands (nodes : List Node) (assemble : List Text → Text)
  /-- Fragments of arguments, in order, to fill a template with. -/
  | template (template : Text) (args : List Node)
  deriving Inhabited

namespace Node

/-- The value of a node that a layout needs. -/
def needText (tag : Tag) (node : Node) : Except RenderError Text :=
  match node.text? with
  | some text => .ok text
  | none => .error (.missingValue tag)

/-- The value of a child that a layout needs. -/
def needChildText (tag : Tag) (node : Node) (index : Nat) : Except RenderError Text :=
  match node.children[index]? with
  | some child => child.needText tag
  | none => .error (.malformedNode tag node.children.length)

/-- The markup of a repeating decimal: its digits are the value of the first child, and the number
of them that repeat the value of the second. -/
def repeating (node : Node) : Except RenderError Text := do
  let decimal ← node.needChildText .repeating 0
  let count ← node.needChildText .repeating 1
  match Repeating.count? count with
  | some count => Repeating.format decimal count
  | none => .error (.invalidLiteral .repeating count)

/-- The arguments of a template: the children behind the third, or else the node's arguments. -/
def templateArgs (node : Node) : List Node :=
  if 3 < node.children.length then node.children.drop 3 else node.args

/-- The plan of a node with a tag whose shape has been checked. -/
def planOf (tag : Tag) (node : Node) : Except RenderError Plan :=
  match Layout.ofTag tag with
  | .value form => do return .write (form.write (← node.needText tag))
  | .fixed pieces =>
    let nodes := node.children.take (operandCount pieces)
    .ok (.operands nodes fun markups => fillPieces pieces (nodes.zip markups))
  | .series opening separator closing =>
    .ok (.operands node.children fun markups =>
      opening ++ separator.intercalate markups ++ closing)
  | .repeating => do return .write (← node.repeating)
  | .template => do return .template (← node.needChildText tag 2) node.templateArgs

/-- What a node asks for. -/
def plan (node : Node) : Except RenderError Plan :=
  match node.tag? with
  | none => .ok .dump
  | some tag => do
    tag.check node
    node.planOf tag

end Node

end Formulary
