import Formulary.Proofs.Render.Run
import Formulary.Proofs.Tree.Node
import Mathlib.Logic.Function.Iterate
import Mathlib.Logic.Relation

/-!
# Checking a tree

A tree can be checked in a loop over a list of nodes that are still to be checked (`Checking.next`):
each round takes the last node off the list and puts its children and then its arguments at the
end. What a round leaves to do is what `Node.visits` lists behind the node (`visitsAll_concat`), so
a round changes no outcome (`Checking.outcome_next`) and comes nearer to the end
(`Checking.left_next`), and the loop ends with what `Node.validate` says
(`Checking.iterate_next`).

* `mem_visits_iff`: the nodes that are checked are those that can be reached from the root;
* `validate_preorder`: the loop, which trees pass, and with which node the others fail.
-/

namespace Formulary

namespace Node

/-! ## The nodes of a tree -/

/-- A node is a child or an argument of another. -/
def HasBelow (node below : Node) : Prop := below ∈ node.children ∨ below ∈ node.args

/-- Through children and arguments, the nodes of a tree are reached from its root. -/
theorem mem_visits_iff {root node : Node} :
    node ∈ root.visits ↔ Relation.ReflTransGen HasBelow root node := by
  constructor
  · intro h
    induction root using Node.induction with
    | h root hChildren hArgs =>
      rcases mem_visits.mp h with rfl | ⟨next, hNext, hNode⟩
      · exact .refl
      · exact .head hNext (hNext.elim (hChildren next · hNode) (hArgs next · hNode))
  · intro h
    induction h using Relation.ReflTransGen.head_induction_on with
    | refl => exact node.mem_visits_self
    | head hNext _ ih => exact mem_visits.mpr (.inr ⟨_, hNext, ih⟩)

/-- Instead of the last tree of a list, its root may be taken, and what stands below it be put at
the end. -/
theorem visitsAll_concat (rest : List Node) (node : Node) :
    visitsAll (rest ++ [node]) = node :: visitsAll (rest ++ (node.children ++ node.args)) := by
  rw [visitsAll_append, visitsAll_append rest, visitsAll, visitsAll, List.nil_append, visits_eq,
    List.cons_append]

/-! ## The shape of one node -/

theorem check_eq_ok_iff {node : Node} :
    node.check = .ok () ↔ ∀ tag, node.tag? = some tag → tag.check node = .ok () := by
  rw [check]
  cases node.tag? with
  | none => simp
  | some tag => simp

theorem check_eq_error_iff {node : Node} {error : RenderError} :
    node.check = .error error ↔ ∃ tag, node.tag? = some tag ∧ tag.check node = .error error := by
  rw [check]
  cases node.tag? with
  | none => simp
  | some tag => simp

end Node

open Node

/-! ## The loop -/

/-- Where a tree is being checked: there are nodes still to be checked, or the loop has ended. -/
inductive Checking where
  | pending (nodes : List Node)
  | ended (outcome : Except RenderError Unit)

namespace Checking

/-- One round of the loop. It takes the last node off the list, checks it and puts its children and
then its arguments at the end. -/
def next : Checking → Checking
  | .pending nodes =>
    match nodes.getLast? with
    | none => .ended (.ok ())
    | some node =>
      match node.check with
      | .error error => .ended (.error error)
      | .ok () => .pending (nodes.dropLast ++ (node.children ++ node.args))
  | .ended outcome => .ended outcome

/-- What the loop will end with. -/
def outcome : Checking → Except RenderError Unit
  | .pending nodes => (visitsAll nodes).forM check
  | .ended outcome => outcome

/-- How many rounds are left at most. -/
def left : Checking → Nat
  | .pending nodes => (visitsAll nodes).length + 1
  | .ended _ => 0

theorem next_concat (rest : List Node) (node : Node) :
    (pending (rest ++ [node])).next = match node.check with
      | .error error => .ended (.error error)
      | .ok () => .pending (rest ++ (node.children ++ node.args)) := by
  rw [next, List.getLast?_concat, List.dropLast_concat]

theorem outcome_next (state : Checking) : state.next.outcome = state.outcome := by
  cases state with
  | ended outcome => rfl
  | pending nodes =>
    rcases List.eq_nil_or_concat' nodes with rfl | ⟨rest, node, rfl⟩
    · rfl
    · rw [next_concat, outcome, visitsAll_concat, List.forM]
      cases node.check with
      | error error => rfl
      | ok => rfl

theorem left_next (state : Checking) : state.next.left ≤ state.left - 1 := by
  cases state with
  | ended outcome => exact Nat.le_refl 0
  | pending nodes =>
    rcases List.eq_nil_or_concat' nodes with rfl | ⟨rest, node, rfl⟩
    · exact Nat.le_refl 0
    · rw [next_concat, left, visitsAll_concat]
      cases node.check with
      | error error => exact Nat.zero_le _
      | ok => exact Nat.le_refl _

/-- The loop ends, within as many rounds as are left, with the outcome that it had from the
start. -/
theorem iterate_next {rounds : Nat} {state : Checking} (h : state.left ≤ rounds) :
    next^[rounds] state = .ended state.outcome := by
  induction rounds generalizing state with
  | zero =>
    cases state with
    | pending nodes => exact absurd h (Nat.not_succ_le_zero _)
    | ended outcome => rfl
  | succ rounds ih =>
    have hLeft := left_next state
    rw [Function.iterate_succ_apply, ih (by omega), outcome_next]

end Checking

namespace Node

/-- Checking a tree comes to an end. It passes when every node that can be reached has an unknown
kind or passes the check of its tag. Otherwise it fails with the failure of the first node that does
not pass, where behind each node come its children and then its arguments, read from the last to the
first. -/
theorem validate_preorder (root : Node) :
    Checking.next^[root.visits.length + 1] (.pending [root]) = .ended root.validate ∧
    (root.validate = .ok () ↔ ∀ node, Relation.ReflTransGen HasBelow root node →
      ∀ tag, node.tag? = some tag → tag.check node = .ok ()) ∧
    (∀ error, root.validate = .error error ↔ ∃ before node after tag,
      root.visits = before ++ node :: after ∧
      (∀ earlier ∈ before, ∀ known, earlier.tag? = some known → known.check earlier = .ok ()) ∧
      node.tag? = some tag ∧ tag.check node = .error error) ∧
    root.visits = root :: (root.children ++ root.args).reverse.flatMap visits := by
  refine ⟨?_, ?_, fun error => ?_, ?_⟩
  · have hAll : visitsAll [root] = root.visits := by rw [visitsAll, visitsAll, List.nil_append]
    have hEnd := @Checking.iterate_next (root.visits.length + 1) (.pending [root])
    rw [Checking.left, Checking.outcome, hAll] at hEnd
    exact hEnd (Nat.le_refl _)
  · simp only [validate, forM_eq_ok_iff, mem_visits_iff, check_eq_ok_iff]
  · simp only [validate, forM_eq_error_iff, check_eq_ok_iff, check_eq_error_iff,
      exists_and_left]
  · rw [visits_eq, visitsAll_eq]

end Node

end Formulary
