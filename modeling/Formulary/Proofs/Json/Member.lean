import Formulary.Json.Value
import Formulary.Text.Basic

/-!
# Members in their order

The members of an object are sorted by their keys, and each key has one value. Putting in a member
keeps this (`isSorted_insert`), and members that are sorted already stay as they are
(`members_eq_self`).
-/

namespace Formulary.Json.Value

/-- The keys of members rise, so that none of them occurs twice. -/
def IsSorted (members : List (Text × Value)) : Prop :=
  members.Pairwise fun earlier later => earlier.1 < later.1

variable {key : Text} {value : Value} {sorted : List (Text × Value)}

theorem lt_of_not_lt {key other : Text} (h : ¬ key < other) (hNe : key ≠ other) : other < key := by
  refine Decidable.byContradiction fun hNot => ?_
  exact hNe (List.le_antisymm (List.not_lt.mp hNot) (List.not_lt.mp h))

theorem mem_of_mem_insert {member : Text × Value} (h : member ∈ insert key value sorted) :
    member = (key, value) ∨ member ∈ sorted := by
  induction sorted with
  | nil => exact .inl (List.mem_singleton.mp h)
  | cons held rest ih =>
    obtain ⟨other, old⟩ := held
    rw [insert] at h
    split at h
    · exact List.mem_cons.mp h
    · split at h
      · exact (List.mem_cons.mp h).imp_right (List.mem_cons_of_mem _)
      · rcases List.mem_cons.mp h with rfl | hRest
        · exact .inr List.mem_cons_self
        · exact (ih hRest).imp_right (List.mem_cons_of_mem _)

theorem isSorted_insert (key : Text) (value : Value) (h : IsSorted sorted) :
    IsSorted (insert key value sorted) := by
  induction sorted with
  | nil => exact List.pairwise_singleton _ _
  | cons held rest ih =>
    obtain ⟨other, old⟩ := held
    obtain ⟨hHeld, hRest⟩ := List.pairwise_cons.mp h
    rw [insert]
    split
    · rename_i hLess
      refine List.pairwise_cons.mpr ⟨fun member hMember => ?_, h⟩
      rcases List.mem_cons.mp hMember with rfl | hBehind
      · exact hLess
      · exact List.lt_trans hLess (hHeld member hBehind)
    · rename_i hNot
      split
      · rename_i hSame
        subst hSame
        exact List.pairwise_cons.mpr ⟨hHeld, hRest⟩
      · rename_i hNe
        refine List.pairwise_cons.mpr ⟨fun member hMember => ?_, ih hRest⟩
        rcases mem_of_mem_insert hMember with rfl | hBehind
        · exact lt_of_not_lt hNot hNe
        · exact hHeld member hBehind

/-- A member whose key is above all others is put behind them. -/
theorem insert_eq_append (h : ∀ member ∈ sorted, member.1 < key) :
    insert key value sorted = sorted ++ [(key, value)] := by
  induction sorted with
  | nil => rfl
  | cons held rest ih =>
    obtain ⟨other, old⟩ := held
    obtain ⟨hHeld, hRest⟩ := List.forall_mem_cons.mp h
    have hNe : key ≠ other := by
      rintro rfl
      exact List.lt_irrefl _ hHeld
    rw [insert, if_neg (List.lt_asymm hHeld), if_neg hNe, ih hRest, List.cons_append]

/-! ## All members -/

/-- Put in members one after another. -/
def insertAll (sorted entries : List (Text × Value)) : List (Text × Value) :=
  entries.foldl (fun sorted (key, value) => insert key value sorted) sorted

theorem members_eq_insertAll (entries : List (Text × Value)) :
    members entries = insertAll [] entries := rfl

theorem isSorted_insertAll {entries : List (Text × Value)} (h : IsSorted sorted) :
    IsSorted (insertAll sorted entries) := by
  induction entries generalizing sorted with
  | nil => exact h
  | cons entry entries ih => exact ih (isSorted_insert entry.1 entry.2 h)

theorem mem_of_mem_insertAll {entries : List (Text × Value)} {member : Text × Value}
    (h : member ∈ insertAll sorted entries) : member ∈ sorted ∨ member ∈ entries := by
  induction entries generalizing sorted with
  | nil => exact .inl h
  | cons entry entries ih =>
    rcases ih h with hFront | hRest
    · rcases mem_of_mem_insert hFront with rfl | hSorted
      · exact .inr List.mem_cons_self
      · exact .inl hSorted
    · exact .inr (List.mem_cons_of_mem _ hRest)

theorem insertAll_eq_append {entries : List (Text × Value)} (h : IsSorted (sorted ++ entries)) :
    insertAll sorted entries = sorted ++ entries := by
  induction entries generalizing sorted with
  | nil => exact (List.append_nil sorted).symm
  | cons entry entries ih =>
    have hAbove : ∀ member ∈ sorted, member.1 < entry.1 := fun member hMember =>
      (List.pairwise_append.mp h).2.2 member hMember entry List.mem_cons_self
    have hNext : IsSorted ((sorted ++ [entry]) ++ entries) := by
      rw [List.append_assoc]
      exact h
    change insertAll (insert entry.1 entry.2 sorted) entries = _
    rw [insert_eq_append hAbove, ih hNext, List.append_assoc]
    rfl

/-- The members of any entries are sorted. -/
theorem isSorted_members (entries : List (Text × Value)) : IsSorted (members entries) := by
  rw [members_eq_insertAll]
  exact isSorted_insertAll .nil

theorem mem_of_mem_members {entries : List (Text × Value)} {member : Text × Value}
    (h : member ∈ members entries) : member ∈ entries := by
  rw [members_eq_insertAll] at h
  exact (mem_of_mem_insertAll h).resolve_left List.not_mem_nil

/-- Entries that are sorted are the members of their object as they are. -/
theorem members_eq_self {entries : List (Text × Value)} (h : IsSorted entries) :
    members entries = entries := by
  rw [members_eq_insertAll]
  exact insertAll_eq_append h

end Formulary.Json.Value
