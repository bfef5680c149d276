import Formulary.Proofs.Render.Run
import Formulary.Proofs.Tree.Node
import Formulary.Render.Markup

/-!
# The nodes that are rendered below a node

`Node.visited` lists them by the tag alone: none below a node without a tag, a literal or a
repeating decimal, the arguments of a template, all children of a variadic tag, and as many as its
layout reads for every other tag. Whatever plan a node has, it asks for exactly these
(`nodes_of_plan`), and a failing plan is never about depth (`plan_ne_depthExceeded`).
`Node.visitedHeight` counts the levels that are rendered. `renderWithin_succ` is one such level.
-/

namespace Formulary

/-- The nodes below a node with a tag that are rendered. -/
def Tag.visited (tag : Tag) (node : Node) : List Node :=
  match tag with
  | .repeating => []
  | .template => node.templateArgs
  | _ => node.children.take (tag.reads node.children.length)

namespace Node

/-- The nodes below a node that are rendered, in order. -/
def visited (node : Node) : List Node :=
  match node.tag? with
  | none => []
  | some tag => tag.visited node

theorem mem_of_mem_templateArgs {node arg : Node} (h : arg ∈ node.templateArgs) :
    arg ∈ node.children ∨ arg ∈ node.args := by
  rw [templateArgs] at h
  split at h
  · exact .inl (List.mem_of_mem_drop h)
  · exact .inr h

theorem mem_of_mem_visited {node below : Node} (h : below ∈ node.visited) :
    below ∈ node.children ∨ below ∈ node.args := by
  unfold visited at h
  split at h
  · cases h
  · unfold Tag.visited at h
    split at h
    · cases h
    · exact mem_of_mem_templateArgs h
    · exact .inl (List.mem_of_mem_take h)

theorem sizeOf_lt_of_mem_visited {node below : Node} (h : below ∈ node.visited) :
    sizeOf below < sizeOf node :=
  (mem_of_mem_visited h).elim sizeOf_lt_of_mem_children sizeOf_lt_of_mem_args

/-- How many levels of a tree are rendered: a node and the greatest number below it. -/
def visitedHeight (node : Node) : Nat :=
  1 + peak (fun below => visitedHeight below.1) node.visited.attach
termination_by sizeOf node
decreasing_by exact sizeOf_lt_of_mem_visited below.2

theorem visitedHeight_eq (node : Node) :
    node.visitedHeight = 1 + peak visitedHeight node.visited := by
  rw [visitedHeight, peak_attach visitedHeight]

end Node

/-! ## Plans -/

/-- The nodes that a plan asks for. -/
def Plan.nodes : Plan → List Node
  | .write _ | .dump => []
  | .operands nodes _ => nodes
  | .template _ args => args

theorem Tag.visited_eq (tag : Tag) (node : Node) :
    tag.visited node =
      match Layout.ofTag tag with
      | .value _ | .repeating => []
      | .fixed _ => node.children.take tag.arity
      | .series .. => node.children
      | .template => node.templateArgs := by
  cases tag <;> first | rfl | exact List.take_length

/-- A layout has places for exactly the operands that the tag asks for. -/
theorem Layout.operandCount_eq {tag : Tag} {pieces : List Piece}
    (h : Layout.ofTag tag = .fixed pieces) : operandCount pieces = tag.arity := by
  cases tag <;> first | cases h; rfl | cases h

namespace Node

theorem nodes_of_planOf {tag : Tag} {node : Node} {plan : Plan}
    (h : node.planOf tag = .ok plan) : plan.nodes = tag.visited node := by
  rw [Tag.visited_eq]
  unfold planOf at h
  cases hLayout : Layout.ofTag tag with
  | value form =>
    simp only [hLayout] at h
    obtain ⟨text, -, hPlan⟩ := exists_of_bind_ok h
    cases hPlan
    rfl
  | fixed pieces =>
    simp only [hLayout] at h
    cases h
    exact congrArg node.children.take (Layout.operandCount_eq hLayout)
  | series opening separator closing =>
    simp only [hLayout] at h
    cases h
    rfl
  | repeating =>
    simp only [hLayout] at h
    obtain ⟨markup, -, hPlan⟩ := exists_of_bind_ok h
    cases hPlan
    rfl
  | template =>
    simp only [hLayout] at h
    obtain ⟨text, -, hPlan⟩ := exists_of_bind_ok h
    cases hPlan
    rfl

/-- A plan asks for the nodes that are visited. -/
theorem nodes_of_plan {node : Node} {plan : Plan} (h : node.plan = .ok plan) :
    plan.nodes = node.visited := by
  unfold Node.plan at h
  unfold visited
  cases hTag : node.tag? with
  | none =>
    simp only [hTag] at h
    cases h
    rfl
  | some tag =>
    simp only [hTag] at h
    obtain ⟨-, -, hPlan⟩ := exists_of_bind_ok h
    exact nodes_of_planOf hPlan

/-! ## Failing plans -/

theorem needText_ne (tag : Tag) (node : Node) (limit : Nat) :
    node.needText tag ≠ .error (.depthExceeded limit) := by
  intro h
  unfold needText at h
  split at h <;> cases h

theorem needChildText_ne (tag : Tag) (node : Node) (index limit : Nat) :
    node.needChildText tag index ≠ .error (.depthExceeded limit) := by
  intro h
  unfold needChildText at h
  split at h
  · exact needText_ne _ _ _ h
  · cases h

theorem format_ne (decimal : Text) (count limit : Nat) :
    Repeating.format decimal count ≠ .error (.depthExceeded limit) := by
  intro h
  simp only [Repeating.format] at h
  split at h <;> cases h

theorem repeating_ne (node : Node) (limit : Nat) :
    node.repeating ≠ .error (.depthExceeded limit) := by
  intro h
  rcases bind_error h with hDecimal | ⟨decimal, -, hCount⟩
  · exact needChildText_ne _ _ _ _ hDecimal
  · rcases bind_error hCount with hText | ⟨count, -, hFormat⟩
    · exact needChildText_ne _ _ _ _ hText
    · split at hFormat
      · exact format_ne _ _ _ hFormat
      · cases hFormat

theorem check_ne (tag : Tag) (node : Node) (limit : Nat) :
    tag.check node ≠ .error (.depthExceeded limit) := by
  intro h
  unfold Tag.check at h
  split at h
  · cases h
  · split at h <;> cases h

theorem planOf_ne (tag : Tag) (node : Node) (limit : Nat) :
    node.planOf tag ≠ .error (.depthExceeded limit) := by
  intro h
  unfold planOf at h
  split at h
  · rcases bind_error h with hText | ⟨text, -, hPlan⟩
    · exact needText_ne _ _ _ hText
    · cases hPlan
  · cases h
  · cases h
  · rcases bind_error h with hMarkup | ⟨markup, -, hPlan⟩
    · exact repeating_ne _ _ hMarkup
    · cases hPlan
  · rcases bind_error h with hText | ⟨text, -, hPlan⟩
    · exact needChildText_ne _ _ _ _ hText
    · cases hPlan

/-- No node by itself exceeds the depth limit. -/
theorem plan_ne_depthExceeded (node : Node) (limit : Nat) :
    node.plan ≠ .error (.depthExceeded limit) := by
  intro h
  unfold Node.plan at h
  split at h
  · cases h
  · rcases bind_error h with hCheck | ⟨-, -, hPlan⟩
    · exact check_ne _ _ _ hCheck
    · exact planOf_ne _ _ _ hPlan

end Node

/-! ## One level -/

/-- Render an argument of a template, with room for so many levels. -/
def fragmentWithin (settings : Settings) (room : Nat) (arg : Node) : Run RenderError Text := do
  delimited settings .inline (← renderWithin settings room arg)

theorem renderWithin_succ (settings : Settings) (room : Nat) (node : Node) :
    renderWithin settings (room + 1) node =
      (Run.ofExcept node.plan >>= Plan.follow (fun run => run) settings (renderWithin settings room)
        (fragmentWithin settings room) node) := rfl

end Formulary
