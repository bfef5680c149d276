import Formulary.Failure
import Formulary.Tree.Node

/-!
# The shape of a tree

A node with a tag must have as many children as its layout reads and, for some tags, a value
(`Tag.check`). `Node.validate` checks every node of a tree, below nodes without a tag too, and
reports the first failure in the order of `Node.visits`: a node comes before its arguments, its
arguments before its children, and each list is taken from its end.
-/

namespace Formulary

/-- Check the shape of a node with this tag: first its children, then its value. -/
def Tag.check (tag : Tag) (node : Node) : Except RenderError Unit :=
  if node.children.length < tag.arity then .error (.malformedNode tag node.children.length)
  else if tag.needsValue && node.value.isNone then .error (.missingValue tag)
  else .ok ()

namespace Node

/-- Check the shape of one node; a node without a tag has any shape. -/
def check (node : Node) : Except RenderError Unit :=
  match node.tag? with
  | some tag => tag.check node
  | none => .ok ()

mutual

/-- The nodes of a tree in the order in which they are checked. -/
def visits : Node → List Node
  | ⟨kind, value, children, args⟩ =>
    ⟨kind, value, children, args⟩ :: (visitsAll args ++ visitsAll children)

/-- The nodes of a list of trees in the order in which they are checked, the last tree first. -/
def visitsAll : List Node → List Node
  | [] => []
  | node :: rest => visitsAll rest ++ node.visits

end

/-- Check every node of a tree. -/
def validate (node : Node) : Except RenderError Unit := node.visits.forM check

end Node

end Formulary
