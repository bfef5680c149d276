import Formulary.Render.Markup

/-!
# A renderer that is used again

A session renders many trees one after the other and counts, in its own state, how deep it
stands: the count rises before a node is followed and falls behind it, also when the node fails.
Every call leaves the count as it found it.
-/

namespace Formulary

/-- A computation that counts its depth, and keeps the count when it fails. -/
def Counted (α : Type) : Type := Nat → Run RenderError α × Nat

namespace Counted

variable {α β : Type}

/-- Run a computation that leaves the depth alone. -/
def lift (run : Run RenderError α) : Counted α := fun depth => (run, depth)

/-- Run a computation and then another one with its result. -/
def andThen (first : Counted α) (next : α → Counted β) : Counted β := fun depth =>
  let (run, between) := first depth
  match run.outcome with
  | .error error => (⟨run.notices, .error error⟩, between)
  | .ok value =>
    let (rest, after) := next value between
    (⟨run.notices ++ rest.notices, rest.outcome⟩, after)

instance : Monad Counted where
  pure value := lift (.ok value)
  bind := andThen

/-- The depth. -/
def depth : Counted Nat := fun depth => (.ok depth, depth)

/-- Run a computation one level deeper, and come back also when it fails. -/
def deeper (inner : Counted α) : Counted α := fun depth =>
  let (run, after) := inner (depth + 1)
  (run, after - 1)

end Counted

/-- A call of a session. -/
inductive Call where
  | render
  | operand
  | convert
  | fragment
  deriving DecidableEq, Repr, Inhabited

namespace Session

/-- Render a node at the depth that the session counts. The first argument bounds the levels that
are followed; the depth limit of the settings is reached before it is used up. -/
def renderWithin (settings : Settings) : Nat → Node → Counted Text
  | 0, _ => .lift (.fail (.depthExceeded settings.maxDepth))
  | bound + 1, node => do
    if settings.maxDepth ≤ (← Counted.depth) then
      Counted.lift (.fail (.depthExceeded settings.maxDepth))
    else
      Counted.deeper do
        let plan ← Counted.lift (Run.ofExcept node.plan)
        plan.follow Counted.lift settings (renderWithin settings bound)
          (fun arg => do
            let raw ← renderWithin settings bound arg
            Counted.lift (delimited settings .inline raw)) node

/-- Render a node at the depth that the session counts. -/
def render (settings : Settings) (node : Node) : Counted Text :=
  renderWithin settings (settings.maxDepth + 1) node

/-- Answer one call. -/
def call (settings : Settings) (kind : Call) (node : Node) : Counted Text := do
  let raw ← render settings node
  match kind with
  | .render => return raw
  | .operand => return node.group raw
  | .convert => Counted.lift (delimited settings settings.mathStyle raw)
  | .fragment => Counted.lift (delimited settings .inline raw)

/-- Answer calls one after the other; each gives its outcome, with its notices, and the depth
behind it. -/
def calls (settings : Settings) : Nat → List (Call × Node) → List (Run RenderError Text × Nat)
  | _, [] => []
  | depth, (kind, node) :: rest =>
    let answer := call settings kind node depth
    answer :: calls settings answer.2 rest

end Session

end Formulary
