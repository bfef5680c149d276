import Formulary.Render.Markup
import Formulary.Tree.Decode

/-!
# Conversions

The entry points for whole trees: a tree that was built by the caller, a tree in JSON, and a batch
of trees of which each succeeds or fails on its own.
-/

namespace Formulary

/-- Convert a tree. -/
def convertTree (settings : Settings) (node : Node) : Run Failure Text :=
  (convert settings node).mapError .render

/-- Read a tree from JSON, check its shape and convert it. -/
def convertJson (settings : Settings) (text : Text) : Run Failure Text := do
  let node ← Run.ofExcept (Node.ofJson text)
  convertTree settings node

/-- Convert trees one after the other, with a notice for each that fails; `index` counts those
before. -/
def convertBatchFrom (settings : Settings) :
    Nat → List Node → List Notice × List (Except Failure Text)
  | _, [] => ([], [])
  | index, node :: rest =>
    let run := convertTree settings node
    let told := match run.outcome with
      | .ok _ => run.notices
      | .error failure => run.notices ++ [.treeFailed index failure]
    let (notices, outcomes) := convertBatchFrom settings (index + 1) rest
    (told ++ notices, run.outcome :: outcomes)

/-- Convert independent trees. A tree that fails does not affect the others. -/
def convertBatch (settings : Settings) (nodes : List Node) :
    List Notice × List (Except Failure Text) :=
  convertBatchFrom settings 0 nodes

end Formulary
