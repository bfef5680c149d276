import Formulary.Tree.Shape

/-!
# Induction on trees

A tree is smaller than every node that has it among its children or arguments, so what follows for
a node from its children and arguments holds for all trees (`Node.induction`). `peak` is the
greatest value of a measure on a list, and the height of a node is one more than the peak of the
heights below it (`height_eq`). The nodes of a tree are its root and those of its children and
arguments (`visits_eq`, `mem_visits`).
-/

namespace Formulary

/-- The greatest value of a measure on a list, or zero. -/
def peak {α : Type} (measure : α → Nat) (items : List α) : Nat :=
  items.foldr (fun item most => max (measure item) most) 0

@[simp] theorem peak_cons {α : Type} (measure : α → Nat) (item : α) (rest : List α) :
    peak measure (item :: rest) = max (measure item) (peak measure rest) := rfl

theorem le_peak {α : Type} {measure : α → Nat} {items : List α} {item : α} (h : item ∈ items) :
    measure item ≤ peak measure items := by
  induction items with
  | nil => cases h
  | cons head rest ih =>
    rw [peak_cons]
    rcases List.mem_cons.mp h with rfl | hRest
    · exact Nat.le_max_left ..
    · exact Nat.le_trans (ih hRest) (Nat.le_max_right ..)

theorem peak_le {α : Type} {measure : α → Nat} {items : List α} {bound : Nat}
    (h : ∀ item ∈ items, measure item ≤ bound) : peak measure items ≤ bound := by
  induction items with
  | nil => exact Nat.zero_le bound
  | cons head rest ih =>
    rw [peak_cons]
    exact Nat.max_le.mpr ⟨h head List.mem_cons_self,
      ih fun item hItem => h item (List.mem_cons_of_mem _ hItem)⟩

theorem peak_attach {α : Type} (measure : α → Nat) (items : List α) :
    peak (fun item => measure item.1) items.attach = peak measure items :=
  @List.foldr_attach α Nat items (fun item most => max (measure item) most) 0

namespace Node

theorem sizeOf_lt_of_mem_children {node child : Node} (h : child ∈ node.children) :
    sizeOf child < sizeOf node := by
  obtain ⟨kind, value, children, args⟩ := node
  have hChild : sizeOf child < sizeOf children := List.sizeOf_lt_of_mem h
  simp only [mk.sizeOf_spec]
  omega

theorem sizeOf_lt_of_mem_args {node arg : Node} (h : arg ∈ node.args) :
    sizeOf arg < sizeOf node := by
  obtain ⟨kind, value, children, args⟩ := node
  have hArg : sizeOf arg < sizeOf args := List.sizeOf_lt_of_mem h
  simp only [mk.sizeOf_spec]
  omega

/-- What a node inherits from its children and arguments holds for every tree. -/
theorem induction {P : Node → Prop}
    (h : ∀ node : Node, (∀ child ∈ node.children, P child) → (∀ arg ∈ node.args, P arg) → P node)
    (node : Node) : P node :=
  h node (fun child _ => induction h child) (fun arg _ => induction h arg)
termination_by sizeOf node
decreasing_by
  · exact sizeOf_lt_of_mem_children ‹_›
  · exact sizeOf_lt_of_mem_args ‹_›

theorem forestHeight_eq (nodes : List Node) : forestHeight nodes = peak height nodes := by
  induction nodes with
  | nil => rfl
  | cons node rest ih => rw [forestHeight, peak_cons, ih]

theorem height_eq (node : Node) :
    node.height = max (peak height node.children) (peak height node.args) + 1 := by
  obtain ⟨kind, value, children, args⟩ := node
  rw [height, forestHeight_eq, forestHeight_eq]

theorem height_pos (node : Node) : 0 < node.height := by
  rw [height_eq]
  exact Nat.succ_pos _

theorem height_lt_of_mem {node below : Node} (h : below ∈ node.children ∨ below ∈ node.args) :
    below.height < node.height := by
  rw [height_eq node, Nat.lt_succ_iff]
  rcases h with hChild | hArg
  · exact Nat.le_trans (le_peak hChild) (Nat.le_max_left ..)
  · exact Nat.le_trans (le_peak hArg) (Nat.le_max_right ..)

/-! ## The nodes of a tree -/

theorem visitsAll_eq (nodes : List Node) : visitsAll nodes = nodes.reverse.flatMap visits := by
  induction nodes with
  | nil => rfl
  | cons node rest ih => rw [visitsAll, ih, List.reverse_cons, List.flatMap_append,
      List.flatMap_singleton]

theorem visitsAll_append (first second : List Node) :
    visitsAll (first ++ second) = visitsAll second ++ visitsAll first := by
  rw [visitsAll_eq, visitsAll_eq, visitsAll_eq, List.reverse_append, List.flatMap_append]

/-- Behind a node come its arguments and children, each list from its end. -/
theorem visits_eq (node : Node) :
    node.visits = node :: visitsAll (node.children ++ node.args) := by
  rw [visitsAll_append]
  cases node
  rw [visits]

theorem mem_visits {root node : Node} :
    node ∈ root.visits ↔
      node = root ∨ ∃ child, (child ∈ root.children ∨ child ∈ root.args) ∧ node ∈ child.visits := by
  rw [visits_eq, visitsAll_eq, List.mem_cons, List.mem_flatMap]
  simp only [List.mem_reverse, List.mem_append]

theorem mem_visits_self (node : Node) : node ∈ node.visits := mem_visits.mpr (.inl rfl)

theorem mem_visits_trans {root node below : Node} (hNode : node ∈ root.visits)
    (hBelow : below ∈ node.visits) : below ∈ root.visits := by
  induction root using Node.induction with
  | h root hChildren hArgs =>
    rcases mem_visits.mp hNode with rfl | ⟨next, hNext, hInNext⟩
    · exact hBelow
    · have hRest : below ∈ next.visits :=
        hNext.elim (fun h => hChildren next h hInNext) (fun h => hArgs next h hInNext)
      exact mem_visits.mpr (.inr ⟨next, hNext, hRest⟩)

end Node

end Formulary
