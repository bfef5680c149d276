import Formulary.Notice
import Formulary.Render.Plan
import Formulary.Text.Placeholder
import Formulary.Text.Segment

/-!
# Rendering

A tree is rendered from the root down, its operands in order, until the first failure. Every level
takes one from the `room` that is left, and a node without room is refused. A node of a kind
without a layout is dumped and noticed, and nothing below it is looked at.

* `render` gives raw markup, `renderOperand` groups it as an operand;
* `finished` runs the stages that turn raw into finished markup;
* `fragment` is finished inline markup, the form of a template's arguments.
-/

namespace Formulary

/-- Do what a node asks for, given how to render its operands. `lift` runs a computation that
visits no other node. -/
def Plan.follow {m : Type → Type} [Monad m] (lift : {α : Type} → Run RenderError α → m α)
    (settings : Settings) (visit fragment : Node → m Text) (node : Node) : Plan → m Text
  | .write markup => pure markup
  | .dump => do
    lift (.tell (.unknownKind node.kind))
    return node.dump
  | .operands nodes assemble => do
    let markups ← nodes.mapM visit
    return assemble markups
  | .template text args => do
    let filled ← Placeholder.substitute settings.substitution fragment args text
    return localize filled

/-- The fragments of a template may as well be rendered before it is filled. -/
theorem Plan.follow_template {m : Type → Type} [Monad m] [LawfulMonad m]
    (lift : {α : Type} → Run RenderError α → m α) (settings : Settings)
    (visit fragment : Node → m Text) (node : Node) (text : Text) (args : List Node) :
    Plan.follow lift settings visit fragment node (.template text args) = do
      let fragments ← args.mapM fragment
      return localize (Placeholder.fill settings.substitution fragments text) := by
  rw [Plan.follow, Placeholder.substitute_eq, bind_assoc]
  simp only [pure_bind]

/-- Run the stages over raw markup, with a notice for each. -/
def finished (settings : Settings) (raw : Text) : Run RenderError Text where
  notices := (Stage.passes settings Stage.all raw).map fun (stage, before, after) =>
    .rewrote stage before after
  outcome := .ok (Markup.finish settings raw)

/-- Finish raw markup and put delimiters around it. -/
def delimited (settings : Settings) (style : MathStyle) (raw : Text) : Run RenderError Text := do
  return Markup.wrap style (← finished settings raw)

/-- Render a node with room for so many levels. -/
def renderWithin (settings : Settings) : Nat → Node → Run RenderError Text
  | 0, _ => .fail (.depthExceeded settings.maxDepth)
  | room + 1, node => do
    let plan ← Run.ofExcept node.plan
    plan.follow (fun run => run) settings (renderWithin settings room)
      (fun arg => do delimited settings .inline (← renderWithin settings room arg)) node

/-- Render a tree to raw markup. -/
def render (settings : Settings) (node : Node) : Run RenderError Text :=
  renderWithin settings settings.maxDepth node

/-- Render a tree as the operand of an operator such as `sin`. -/
def renderOperand (settings : Settings) (node : Node) : Run RenderError Text := do
  return node.group (← render settings node)

/-- Render and finish a tree, with the delimiters of a style. -/
def convertAs (settings : Settings) (style : MathStyle) (node : Node) : Run RenderError Text := do
  delimited settings style (← render settings node)

/-- Render and finish a tree, with the delimiters of the settings. -/
def convert (settings : Settings) (node : Node) : Run RenderError Text :=
  convertAs settings settings.mathStyle node

/-- Render and finish a tree as inline math, to stand in a text. -/
def fragment (settings : Settings) (node : Node) : Run RenderError Text :=
  convertAs settings .inline node

end Formulary
