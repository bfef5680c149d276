import Formulary.Proofs.Render.Visit
import Formulary.Render.Session

/-!
# Using a renderer again

A session counts its depth, and every computation of it leaves the count as it was, however far
down it fails: it gives the run that is rendered without a count, with the room that the count
leaves (`Counted.Gives`). Each way of putting computations together keeps this, so it holds of the
whole recursion (`gives_renderWithin`) and of every call (`gives_call`). Calls made one after the
other are therefore answered as if each were the first (`calls_eq`).
-/

namespace Formulary

namespace Counted

variable {α β : Type}

/-- At a depth the computation is this run and comes back to the depth. -/
def Gives (counted : Counted α) (depth : Nat) (run : Run RenderError α) : Prop :=
  counted depth = (run, depth)

theorem gives_lift (run : Run RenderError α) (depth : Nat) : Gives (lift run) depth run := rfl

theorem gives_pure (value : α) (depth : Nat) :
    Gives (pure value) depth (pure value) := rfl

theorem gives_bind {first : Counted α} {next : α → Counted β} {depth : Nat}
    {run : Run RenderError α} {later : α → Run RenderError β} (hFirst : Gives first depth run)
    (hNext : ∀ value, Gives (next value) depth (later value)) :
    Gives (first >>= next) depth (run >>= later) := by
  change andThen first next depth = (run >>= later, depth)
  unfold Gives at hFirst hNext
  rw [andThen, hFirst]
  cases hRun : run.outcome with
  | error error =>
    rw [Run.bind_of_error hRun]
    simp only [hRun]
  | ok value =>
    rw [Run.bind_of_ok hRun]
    simp only [hRun, hNext]

/-- A list of computations is gone through until the first failure, and the depth is kept
throughout. -/
theorem gives_mapM {ι : Type} {f : ι → Counted α} {g : ι → Run RenderError α} {depth : Nat}
    {items : List ι} (h : ∀ item ∈ items, Gives (f item) depth (g item)) :
    Gives (items.mapM f) depth (items.mapM g) := by
  -- The accumulator of the loop holds the results so far.
  have hLoop : ∀ done, Gives (List.mapM.loop f items done) depth (List.mapM.loop g items done) := by
    induction items with
    | nil => exact fun done => gives_pure done.reverse depth
    | cons item rest ih =>
      have hRest := ih fun other hOther => h other (List.mem_cons_of_mem _ hOther)
      exact fun done => gives_bind (h item List.mem_cons_self) fun value => hRest (value :: done)
  exact hLoop []

/-- A template is filled by computations that keep the depth, argument after argument. -/
theorem gives_substitute {ι : Type} {f : ι → Counted Text} {g : ι → Run RenderError Text}
    {depth : Nat} (h : ∀ arg, Gives (f arg) depth (g arg)) (mode : Substitution) (args : List ι)
    (template : Text) :
    Gives (Placeholder.substitute mode f args template) depth
      (Placeholder.substitute mode g args template) := by
  have hFrom : ∀ position text, Gives (Placeholder.substituteFrom mode f position args text) depth
      (Placeholder.substituteFrom mode g position args text) := by
    induction args with
    | nil => exact fun _ text => gives_pure text depth
    | cons arg rest ih => exact fun _ _ => gives_bind (h arg) fun _ => ih _ _
  exact hFrom 1 template

theorem gives_deeper {inner : Counted α} {depth : Nat} {run : Run RenderError α}
    (h : Gives inner (depth + 1) run) : Gives (deeper inner) depth run := by
  unfold Gives at h ⊢
  rw [deeper, h]
  rfl

/-- What a plan asks for keeps the depth when the nodes that it asks for do. -/
theorem gives_follow (settings : Settings) {visit fragment : Node → Counted Text}
    {visit' fragment' : Node → Run RenderError Text} {depth : Nat}
    (hVisit : ∀ below, Gives (visit below) depth (visit' below))
    (hFragment : ∀ arg, Gives (fragment arg) depth (fragment' arg)) (node : Node) (plan : Plan) :
    Gives (plan.follow lift settings visit fragment node) depth
      (plan.follow (fun run => run) settings visit' fragment' node) := by
  cases plan with
  | write markup => exact gives_pure markup depth
  | dump =>
    exact gives_bind (gives_lift (.tell (.unknownKind node.kind)) depth) fun _ => gives_pure _ depth
  | operands nodes assemble =>
    exact gives_bind (gives_mapM fun below _ => hVisit below) fun _ => gives_pure _ depth
  | template text args =>
    exact gives_bind (gives_substitute hFragment _ args text) fun _ => gives_pure _ depth

end Counted

namespace Session

open Counted

/-- One level of a session, above the depth limit. -/
def level (settings : Settings) (bound : Nat) (node : Node) : Counted Text :=
  Counted.lift (Run.ofExcept node.plan) >>= Plan.follow Counted.lift settings
    (renderWithin settings bound)
    (fun arg => renderWithin settings bound arg >>= fun raw =>
      Counted.lift (delimited settings .inline raw)) node

theorem renderWithin_apply (settings : Settings) (bound : Nat) (node : Node) (depth : Nat) :
    renderWithin settings (bound + 1) node depth =
      (if settings.maxDepth ≤ depth then lift (.fail (.depthExceeded settings.maxDepth))
        else deeper (level settings bound node)) depth := rfl

/-- A session renders with the room that its depth leaves. -/
theorem gives_renderWithin (settings : Settings) {bound depth : Nat}
    (h : settings.maxDepth - depth < bound) (node : Node) :
    Gives (renderWithin settings bound node) depth
      (Formulary.renderWithin settings (settings.maxDepth - depth) node) := by
  induction bound generalizing depth node with
  | zero => exact absurd h (Nat.not_lt_zero _)
  | succ bound ih =>
    rw [Gives, renderWithin_apply]
    by_cases hLimit : settings.maxDepth ≤ depth
    · rw [if_pos hLimit, Nat.sub_eq_zero_of_le hLimit]
      rfl
    · have hRoom : settings.maxDepth - depth = settings.maxDepth - (depth + 1) + 1 := by omega
      have hVisit : ∀ below, Gives (renderWithin settings bound below) (depth + 1)
          (Formulary.renderWithin settings (settings.maxDepth - (depth + 1)) below) :=
        ih (by omega)
      have hLevel : Gives (level settings bound node) (depth + 1)
          (Formulary.renderWithin settings (settings.maxDepth - (depth + 1) + 1) node) := by
        refine gives_bind (gives_lift _ _) fun plan => gives_follow settings hVisit ?_ node plan
        exact fun arg => gives_bind (hVisit arg) fun raw => gives_lift _ _
      rw [if_neg hLimit, hRoom]
      exact gives_deeper hLevel

/-- The answer to a call without a session, with room for so many levels. -/
def answerWithin (settings : Settings) (room : Nat) (kind : Call) (node : Node) :
    Run RenderError Text := do
  let raw ← Formulary.renderWithin settings room node
  match kind with
  | .render => return raw
  | .operand => return node.group raw
  | .convert => delimited settings settings.mathStyle raw
  | .fragment => delimited settings .inline raw

theorem gives_call (settings : Settings) (kind : Call) (node : Node) (depth : Nat) :
    Gives (call settings kind node) depth
      (answerWithin settings (settings.maxDepth - depth) kind node) := by
  have hRaw : Gives (render settings node) depth
      (Formulary.renderWithin settings (settings.maxDepth - depth) node) :=
    gives_renderWithin settings (by omega) node
  refine gives_bind hRaw fun raw => ?_
  cases kind with
  | render => exact gives_pure raw depth
  | operand => exact gives_pure (node.group raw) depth
  | convert => exact gives_lift _ depth
  | fragment => exact gives_lift _ depth

/-- The answer to a call of a renderer that was not used before. -/
def answer (settings : Settings) : Call → Node → Run RenderError Text
  | .render => Formulary.render settings
  | .operand => renderOperand settings
  | .convert => convert settings
  | .fragment => fragment settings

theorem answerWithin_eq (settings : Settings) (kind : Call) (node : Node) :
    answerWithin settings settings.maxDepth kind node = answer settings kind node := by
  cases kind with
  | render => exact bind_pure (Formulary.render settings node)
  | operand => rfl
  | convert => rfl
  | fragment => rfl

theorem call_eq (settings : Settings) (kind : Call) (node : Node) :
    call settings kind node 0 = (answer settings kind node, 0) := by
  have hCall := gives_call settings kind node 0
  rw [Nat.sub_zero, answerWithin_eq] at hCall
  exact hCall

/-- A session answers every call as a renderer does that was not used before, whatever the calls
before it were and however they ended; and at any depth a call leaves the depth as it was. -/
theorem calls_eq (settings : Settings) (requests : List (Call × Node)) :
    calls settings 0 requests =
        requests.map (fun request => (answer settings request.1 request.2, 0)) ∧
      (∀ kind node, call settings kind node 0 = (answer settings kind node, 0)) ∧
      ∀ kind node depth, (call settings kind node depth).2 = depth := by
  refine ⟨?_, call_eq settings, fun kind node depth => ?_⟩
  · induction requests with
    | nil => rfl
    | cons request rest ih =>
      rw [calls, call_eq, ih]
      rfl
  · rw [gives_call settings kind node depth]

end Session

end Formulary
