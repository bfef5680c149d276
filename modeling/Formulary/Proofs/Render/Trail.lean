import Formulary.Proofs.Render.Alike
import Mathlib.Data.List.TakeWhile

/-!
# Warnings

`Node.trail` lists the nodes of a tree in the order in which they are visited, each with the number
of nodes above it. A visit fails when its level has no room, or with the plan of its node; one of a
node of a kind without a tag gives a warning. `Reports` says that a run fails with the first visit
that fails and warns of the ones before it.

* `Reports.bind`, `Reports.mapM`: a run reports the visits of its steps one after the other;
* `reports_renderWithin`: a tree reports its trail, given the room that is left at its level;
* `Node.trail_pruned`, `Visit.failure?_pruned`: what stands below a node of a kind without a tag is
  not visited, and no visit fails for it;
* `convert_reports` joins them.
-/

namespace Formulary

/-- The failure of a computation. -/
def failureOf {ε α : Type} : Except ε α → Option ε
  | .error error => some error
  | .ok _ => none

/-! ## Visits -/

/-- The failure of a node by itself. -/
def Node.failure? (node : Node) : Option RenderError := failureOf node.plan

/-- A node that is visited, and how many nodes stand above it. -/
structure Visit where
  level : Nat
  node : Node

namespace Visit

/-- The failure of a visit. -/
def failure? (settings : Settings) (visit : Visit) : Option RenderError :=
  if visit.level < settings.maxDepth then visit.node.failure?
  else some (.depthExceeded settings.maxDepth)

/-- The visit does not fail. -/
def passes (settings : Settings) (visit : Visit) : Bool := (visit.failure? settings).isNone

/-- The warning that a visit gives unless it fails. -/
def warning? (visit : Visit) : Option Notice :=
  if visit.node.tag?.isNone then some (.unknownKind visit.node.kind) else none

end Visit

namespace Node

/-- The visits of a tree in order: a node comes before those that are rendered below it. -/
def trail (level : Nat) (node : Node) : List Visit :=
  ⟨level, node⟩ :: node.visited.attach.flatMap fun below => trail (level + 1) below.1
termination_by sizeOf node
decreasing_by exact sizeOf_lt_of_mem_visited below.2

theorem trail_eq (level : Nat) (node : Node) :
    node.trail level = ⟨level, node⟩ :: node.visited.flatMap (trail (level + 1)) := by
  rw [trail, List.flatMap_def, List.flatMap_def, List.attach_map_val]

/-- Nothing below a node of a kind without a tag is visited. -/
theorem trail_of_tag?_eq_none {node : Node} (h : node.tag? = none) (level : Nat) :
    node.trail level = [⟨level, node⟩] := by
  rw [trail_eq, visited, h]
  rfl

end Node

/-! ## Reports -/

namespace Run

variable {ε α : Type}

/-- The warnings among the notices of a run. -/
def warnings (run : Run ε α) : List Notice := run.notices.filter fun notice => notice.level = .warn

/-- The failure of a run. -/
def failure? (run : Run ε α) : Option ε := failureOf run.outcome

theorem failure?_of_ok {run : Run ε α} {value : α} (h : run.outcome = .ok value) :
    run.failure? = none := congrArg failureOf h

theorem failure?_of_error {run : Run ε α} {error : ε} (h : run.outcome = .error error) :
    run.failure? = some error := congrArg failureOf h

end Run

/-- A run fails with the first of its visits that fails, and warns of the ones before. -/
structure Reports {α : Type} (settings : Settings) (visits : List Visit)
    (run : Run RenderError α) : Prop where
  failure : run.failure? = visits.findSome? (Visit.failure? settings)
  warnings : run.warnings = (visits.takeWhile (Visit.passes settings)).filterMap Visit.warning?

theorem takeWhile_append_of_mem {α : Type} {p : α → Bool} {first : List α} {item : α}
    (hItem : item ∈ first) (h : p item = false) (second : List α) :
    (first ++ second).takeWhile p = first.takeWhile p := by
  rw [List.takeWhile_append, if_neg]
  intro hLength
  have hSelf := (List.takeWhile_prefix p).eq_of_length hLength
  rw [List.takeWhile_eq_self_iff.mp hSelf item hItem] at h
  cases h

namespace Reports

variable {α β : Type} {settings : Settings} {first second visits : List Visit}
  {run : Run RenderError α}

theorem pure (value : α) : Reports settings [] (Pure.pure value : Run RenderError α) := ⟨rfl, rfl⟩

/-- No visit of a run with a result fails. -/
theorem passes_of_ok (h : Reports settings visits run) {value : α}
    (hRun : run.outcome = .ok value) : ∀ visit ∈ visits, visit.passes settings := by
  have hNone := h.failure
  rw [Run.failure?_of_ok hRun] at hNone
  intro visit hVisit
  rw [Visit.passes, List.findSome?_eq_none_iff.mp hNone.symm visit hVisit]
  rfl

/-- One visit fails or gives its warning. -/
theorem single {visit : Visit} (hFailure : run.failure? = visit.failure? settings)
    (hWarnings : run.warnings = if visit.passes settings then visit.warning?.toList else []) :
    Reports settings [visit] run := by
  constructor
  · rw [hFailure, List.findSome?_singleton]
  · rw [hWarnings, List.takeWhile_cons]
    cases visit.passes settings with
    | false => rfl
    | true => cases hWarning : visit.warning? <;> simp [hWarning]

/-- Nothing is visited behind a failure. -/
theorem of_error (h : Reports settings first run) {error : RenderError}
    (hRun : run.outcome = .error error) (second : List Visit) :
    Reports settings (first ++ second) run := by
  have hSome : first.findSome? (Visit.failure? settings) = some error := by
    rw [← h.failure, Run.failure?_of_error hRun]
  obtain ⟨visit, hVisit, hFails⟩ := List.exists_of_findSome?_eq_some hSome
  have hStops : visit.passes settings = false := by
    rw [Visit.passes, hFails]
    rfl
  constructor
  · rw [List.findSome?_append, hSome, Run.failure?_of_error hRun]
    rfl
  · rw [takeWhile_append_of_mem hVisit hStops, h.warnings]

/-- Behind the visits of a first run come those of the next one. -/
theorem bind {next : α → Run RenderError β} (h : Reports settings first run)
    (hNext : ∀ value, run.outcome = .ok value → Reports settings second (next value)) :
    Reports settings (first ++ second) (run >>= next) := by
  cases hRun : run.outcome with
  | error error =>
    rw [Run.bind_of_error hRun]
    have hFirst := h.of_error hRun second
    refine ⟨?_, hFirst.warnings⟩
    rw [← hFirst.failure, Run.failure?_of_error hRun]
    rfl
  | ok value =>
    have hPasses := h.passes_of_ok hRun
    have hLater := hNext value hRun
    have hNone : first.findSome? (Visit.failure? settings) = none := by
      rw [← h.failure, Run.failure?_of_ok hRun]
    have hWarnings : (run >>= next).warnings = run.warnings ++ (next value).warnings := by
      rw [Run.bind_of_ok hRun]
      exact List.filter_append ..
    constructor
    · rw [List.findSome?_append, hNone, Option.none_or, ← hLater.failure, Run.bind_of_ok hRun]
      rfl
    · rw [List.takeWhile_append_of_pos hPasses, List.filterMap_append, hWarnings, h.warnings,
        hLater.warnings, List.takeWhile_eq_self_iff.mpr hPasses]

/-- A step that visits nothing does not change the visits of a run. -/
theorem andThen {next : α → Run RenderError β} (h : Reports settings visits run)
    (hNext : ∀ value, Reports settings [] (next value)) :
    Reports settings visits (run >>= next) := by
  have hBoth := h.bind fun value _ => hNext value
  rwa [List.append_nil] at hBoth

theorem mapM {ι : Type} {f : ι → Run RenderError α} {visits : ι → List Visit} {items : List ι}
    (h : ∀ item ∈ items, Reports settings (visits item) (f item)) :
    Reports settings (items.flatMap visits) (items.mapM f) := by
  induction items with
  | nil => exact .pure []
  | cons item rest ih =>
    obtain ⟨hItem, hRest⟩ := List.forall_mem_cons.mp h
    rw [List.mapM_cons, List.flatMap_cons]
    exact hItem.bind fun value _ => (ih hRest).andThen fun values => .pure (value :: values)

end Reports

/-! ## Rendering -/

section Rendering

variable {settings : Settings} {node : Node}

/-- Finishing markup visits nothing, and tells nothing but what its stages rewrite. -/
theorem reports_delimited (style : MathStyle) (raw : Text) :
    Reports settings [] (delimited settings style raw) := by
  refine ⟨rfl, ?_⟩
  have hNotices : (delimited settings style raw).notices = (finished settings raw).notices :=
    List.append_nil _
  rw [Run.warnings, hNotices]
  refine List.filter_eq_nil_iff.mpr fun notice hNotice => ?_
  obtain ⟨pass, -, rfl⟩ := List.mem_map.mp hNotice
  exact of_decide_eq_false rfl

theorem Node.tag?_of_plan_dump (h : node.plan = .ok .dump) : node.tag? = none := by
  by_contra hNe
  obtain ⟨tag, hTag⟩ := Option.ne_none_iff_exists'.mp hNe
  rcases planOf_cases ((plan_eq_ok_iff hTag).mp h).2 with
    ⟨markup, hWrite⟩ | ⟨nodes, assemble, hOperands⟩ | ⟨-, text, hTemplate⟩
  · cases hWrite
  · cases hOperands
  · cases hTemplate

section Level

variable {level room : Nat} {visits : Node → List Visit}

/-- The plan of a node with a tag is all that its own visit comes to. -/
theorem reports_plan (hLevel : level < settings.maxDepth) {tag : Tag}
    (hTag : node.tag? = some tag) :
    Reports settings [⟨level, node⟩] (Run.ofExcept node.plan) := by
  have hWarning : Visit.warning? ⟨level, node⟩ = none := by
    rw [Visit.warning?, hTag]
    rfl
  refine .single ?_ ?_
  · rw [Visit.failure?, if_pos hLevel]
    rfl
  · rw [hWarning, Option.toList_none, ite_self]
    rfl

/-- What a node with a tag asks for visits the nodes below it. -/
theorem reports_follow {plan : Plan} {tag : Tag} (hTag : node.tag? = some tag)
    (hPlan : node.plan = .ok plan)
    (h : ∀ below ∈ node.visited,
      Reports settings (visits below) (renderWithin settings room below)) :
    Reports settings (node.visited.flatMap visits)
      (plan.follow (fun run => run) settings (renderWithin settings room)
        (fragmentWithin settings room) node) := by
  rw [← Node.nodes_of_plan hPlan] at h ⊢
  cases plan with
  | write markup => exact .pure markup
  | dump => cases (Node.tag?_of_plan_dump hPlan).symm.trans hTag
  | operands nodes assemble =>
    exact (Reports.mapM h).andThen fun markups => .pure (assemble markups)
  | template text args =>
    have hFragments : ∀ arg ∈ args,
        Reports settings (visits arg) (fragmentWithin settings room arg) :=
      fun arg hArg => (h arg hArg).andThen (reports_delimited .inline)
    rw [Plan.follow_template]
    exact (Reports.mapM hFragments).andThen fun fragments => .pure _

/-- With the room that is left at its level, a tree reports its trail. -/
theorem reports_renderWithin (hRoom : level + room = settings.maxDepth) :
    Reports settings (node.trail level) (renderWithin settings room node) := by
  induction room generalizing level node with
  | zero =>
    have hFull : ¬ level < settings.maxDepth := by omega
    have hFailure : Visit.failure? settings ⟨level, node⟩ =
        some (.depthExceeded settings.maxDepth) := if_neg hFull
    have hHere : Reports settings [⟨level, node⟩] (renderWithin settings 0 node) := by
      refine .single hFailure.symm ?_
      rw [Visit.passes, hFailure]
      rfl
    rw [Node.trail_eq]
    exact hHere.of_error rfl _
  | succ room ih =>
    have hLevel : level < settings.maxDepth := by omega
    cases hTag : node.tag? with
    | none =>
      rw [Node.trail_of_tag?_eq_none hTag, renderWithin_succ, Node.plan_of_tag?_eq_none hTag]
      have hFailure : Visit.failure? settings ⟨level, node⟩ = none := by
        rw [Visit.failure?, if_pos hLevel]
        exact congrArg failureOf (Node.plan_of_tag?_eq_none hTag)
      refine .single hFailure.symm ?_
      rw [Visit.passes, hFailure, Visit.warning?, hTag]
      rfl
    | some tag =>
      rw [Node.trail_eq, renderWithin_succ]
      refine (reports_plan hLevel hTag).bind fun plan hPlan => reports_follow hTag hPlan ?_
      exact fun below _ => ih (by omega)

end Level

end Rendering

/-! ## What stands below nodes without a tag -/

namespace Node

mutual

/-- The tree without what stands below nodes of kinds without a tag. -/
def pruned : Node → Node
  | ⟨kind, value, children, args⟩ =>
    if (Tag.ofName? kind).isNone then ⟨kind, value, [], []⟩
    else ⟨kind, value, prunedAll children, prunedAll args⟩

/-- The trees of a list without what stands below nodes of kinds without a tag. -/
def prunedAll : List Node → List Node
  | [] => []
  | node :: rest => node.pruned :: prunedAll rest

end

theorem prunedAll_eq (nodes : List Node) : prunedAll nodes = nodes.map pruned := by
  induction nodes with
  | nil => rfl
  | cons node rest ih => rw [prunedAll, ih, List.map_cons]

section Pruned

variable {node : Node} {tag : Tag}

theorem pruned_of_tag? (hTag : node.tag? = some tag) :
    node.pruned =
      ⟨node.kind, node.value, node.children.map pruned, node.args.map pruned⟩ := by
  obtain ⟨kind, value, children, args⟩ := node
  have hSome : ¬ (Tag.ofName? kind).isNone := by
    rw [tag?] at hTag
    simp only at hTag
    rw [hTag]
    exact Bool.false_ne_true
  rw [pruned, if_neg hSome, prunedAll_eq, prunedAll_eq]

theorem kind_pruned (node : Node) : node.pruned.kind = node.kind := by
  obtain ⟨kind, value, children, args⟩ := node
  rw [pruned]
  split <;> rfl

theorem text?_pruned (node : Node) : node.pruned.text? = node.text? := by
  obtain ⟨kind, value, children, args⟩ := node
  rw [pruned]
  split <;> rfl

theorem tag?_pruned (node : Node) : node.pruned.tag? = node.tag? := tag?_congr node.kind_pruned

theorem templateArgs_pruned (hTag : node.tag? = some tag) :
    node.pruned.templateArgs = node.templateArgs.map pruned := by
  rw [pruned_of_tag? hTag, templateArgs, templateArgs, List.length_map]
  split
  · exact (List.map_drop ..).symm
  · rfl

theorem visited_pruned (node : Node) : node.pruned.visited = node.visited.map pruned := by
  cases hTag : node.tag? with
  | none =>
    rw [visited, visited, tag?_pruned, hTag]
    rfl
  | some tag =>
    have hChildren : node.pruned.children = node.children.map pruned := by
      rw [pruned_of_tag? hTag]
    have hPruned : node.pruned.tag? = some tag := node.tag?_pruned.trans hTag
    rw [← tag_visited_eq hTag, ← tag_visited_eq hPruned, Tag.visited_eq, Tag.visited_eq,
      hChildren, templateArgs_pruned hTag, ← List.map_take]
    cases Layout.ofTag tag <;> rfl

theorem needText_pruned (tag : Tag) (node : Node) :
    node.pruned.needText tag = node.needText tag := needText_congr node.text?_pruned

theorem needChildText_pruned (hTag : node.tag? = some tag) (owner : Tag) (index : Nat) :
    node.pruned.needChildText owner index = node.needChildText owner index := by
  rw [pruned_of_tag? hTag, needChildText, needChildText, List.getElem?_map, List.length_map]
  cases node.children[index]? with
  | none => rfl
  | some child => exact needText_pruned owner child

theorem check_pruned (hTag : node.tag? = some tag) : tag.check node.pruned = tag.check node := by
  rw [pruned_of_tag? hTag, Tag.check, Tag.check, List.length_map]

theorem failureOf_planOf_pruned (hTag : node.tag? = some tag) :
    failureOf (node.pruned.planOf tag) = failureOf (node.planOf tag) := by
  rw [planOf, planOf]
  cases Layout.ofTag tag with
  | value form => simp only [needText_pruned]
  | fixed pieces => rfl
  | series opening separator closing => rfl
  | repeating => simp only [repeating, needChildText_pruned hTag]
  | template =>
    simp only [needChildText_pruned hTag]
    cases node.needChildText tag 2 <;> rfl

/-- A node fails as it does without what stands below nodes without a tag. -/
theorem failure?_pruned (node : Node) : node.pruned.failure? = node.failure? := by
  rw [failure?, failure?, plan, plan, tag?_pruned]
  cases hTag : node.tag? with
  | none => rfl
  | some tag =>
    simp only [check_pruned hTag]
    cases tag.check node with
    | error error => rfl
    | ok => exact failureOf_planOf_pruned hTag

end Pruned

end Node

namespace Visit

/-- The visit in the pruned tree. -/
def pruned (visit : Visit) : Visit := ⟨visit.level, visit.node.pruned⟩

theorem failure?_pruned (settings : Settings) (visit : Visit) :
    visit.pruned.failure? settings = visit.failure? settings := by
  rw [failure?, failure?, pruned, Node.failure?_pruned]

theorem passes_pruned (settings : Settings) (visit : Visit) :
    visit.pruned.passes settings = visit.passes settings := by
  rw [passes, passes, failure?_pruned]

theorem warning?_pruned (visit : Visit) : visit.pruned.warning? = visit.warning? := by
  rw [warning?, warning?, pruned, Node.tag?_pruned, Node.kind_pruned]

end Visit

/-- A pruned tree is visited as the tree is. -/
theorem Node.trail_pruned (level : Nat) (node : Node) :
    node.pruned.trail level = (node.trail level).map Visit.pruned := by
  induction node using Node.induction generalizing level with
  | h node hChildren hArgs =>
    have hBelow : ∀ below ∈ node.visited,
        below.pruned.trail (level + 1) = (below.trail (level + 1)).map Visit.pruned := by
      intro below hMem
      exact (mem_of_mem_visited hMem).elim (hChildren below · (level + 1))
        (hArgs below · (level + 1))
    rw [trail_eq, trail_eq, visited_pruned, List.map_cons, List.flatMap_map, List.map_flatMap]
    exact congrArg (_ :: ·) (List.flatMap_congr hBelow)

theorem reports_map_pruned {settings : Settings} {visits : List Visit}
    {run : Run RenderError Text} :
    Reports settings (visits.map Visit.pruned) run ↔ Reports settings visits run := by
  have hFailure : Visit.failure? settings ∘ Visit.pruned = Visit.failure? settings :=
    funext (Visit.failure?_pruned settings)
  have hPasses : Visit.passes settings ∘ Visit.pruned = Visit.passes settings :=
    funext (Visit.passes_pruned settings)
  have hWarning : Visit.warning? ∘ Visit.pruned = Visit.warning? := funext Visit.warning?_pruned
  have hFirst : (visits.map Visit.pruned).findSome? (Visit.failure? settings) =
      visits.findSome? (Visit.failure? settings) := by
    rw [List.findSome?_map, hFailure]
  have hBefore : ((visits.map Visit.pruned).takeWhile (Visit.passes settings)).filterMap
      Visit.warning? = (visits.takeWhile (Visit.passes settings)).filterMap Visit.warning? := by
    rw [List.takeWhile_map, List.filterMap_map, hPasses, hWarning]
  exact ⟨fun h => ⟨h.failure.trans hFirst, h.warnings.trans hBefore⟩,
    fun h => ⟨h.failure.trans hFirst.symm, h.warnings.trans hBefore.symm⟩⟩

/-! ## Conversions -/

theorem reports_convert (settings : Settings) (node : Node) :
    Reports settings (node.trail 0) (convert settings node) :=
  (reports_renderWithin (Nat.zero_add _)).andThen (reports_delimited settings.mathStyle)

/-- A conversion fails with the first visit that fails, and its warnings are those of the visits
before: one for each node of a kind without a tag, with this kind. Nothing below such a node is
visited, and whatever stands there, the failure and the warnings are the same. -/
theorem convert_reports (settings : Settings) (node : Node) :
    Reports settings (node.trail 0) (convert settings node) ∧
      (∀ level unknown, Node.tag? unknown = none → unknown.trail level = [⟨level, unknown⟩]) ∧
      ∀ other : Node, other.pruned = node.pruned →
        (convert settings other).failure? = (convert settings node).failure? ∧
          (convert settings other).warnings = (convert settings node).warnings := by
  have hNode := reports_convert settings node
  refine ⟨hNode, fun level unknown hTag => Node.trail_of_tag?_eq_none hTag level, ?_⟩
  intro other hPruned
  have hOther : Reports settings (node.trail 0) (convert settings other) := by
    rw [← reports_map_pruned, ← Node.trail_pruned, ← hPruned, Node.trail_pruned,
      reports_map_pruned]
    exact reports_convert settings other
  exact ⟨hOther.failure.trans hNode.failure.symm, hOther.warnings.trans hNode.warnings.symm⟩

/-- Rows with nodes below a kind without a tag, as an argument that the template does not name, and
behind a fraction that lacks its parts. -/
def strayKinds (below : List Node) : Node :=
  .ofChildren "vert_list".toList [.ofChildren "matrix".toList below,
    .ofChildren "localized_text".toList [.leaf "string".toList (.text []),
      .leaf "string".toList (.text []), .leaf "string".toList (.text "none".toList),
      .ofChildren "vector".toList below],
    .ofChildren "frac".toList [], .ofChildren "tensor".toList below]

/-- A fraction that lacks its parts, a kind without a tag, and a tree that is too deep. -/
def defects : List Node :=
  [.ofChildren "frac".toList [], .ofChildren "scalar".toList [],
    (Node.leaf "var".toList (.text "x".toList)).wrapped "negative".toList 9]

theorem convert_reports_strayKinds :
    (strayKinds defects).pruned = (strayKinds []).pruned ∧
      (convert { maxDepth := 4 } (strayKinds defects)).failure? =
        some (.malformedNode .fraction 0) ∧
      (convert { maxDepth := 4 } (strayKinds defects)).warnings =
        [.unknownKind "matrix".toList, .unknownKind "vector".toList] := by
  have hPruned : (strayKinds defects).pruned = (strayKinds []).pruned := rfl
  obtain ⟨hFailure, hWarnings⟩ :=
    (convert_reports { maxDepth := 4 } (strayKinds [])).2.2 (strayKinds defects) hPruned
  refine ⟨hPruned, hFailure.trans ?_, hWarnings.trans ?_⟩
  · decide +kernel
  · decide +kernel

end Formulary
