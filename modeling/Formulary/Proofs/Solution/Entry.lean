import Formulary.Proofs.Json.Spends
import Formulary.Proofs.Json.Value
import Formulary.Solution.Preview
import Formulary.Solution.Step
import Mathlib.Algebra.Order.BigOperators.Group.List

/-!
# Entries of a response

A response holds no more entries than characters (`length_shownEntries_le`, `length_steps_le`), and
an entry that is shown can be read again from its text (`isRead_of_mem_shownEntries`). The action
that a preview passes on is the one of its entry (`Preview.nodeAction_of_ofEntry`).
-/

namespace Formulary

open Json Json.Reader

/-! ## Counting entries -/

section

variable {α : Type} {cost : α → Nat}

/-- A field that does not change the cost of its record. -/
theorem spends_field {β : Type} {reader : Reader β} (h : Spends 0 reader fun _ => 0)
    {change : β → α → α} (hChange : ∀ read value, cost (change read value) = cost value)
    (value : α) :
    Spends (cost value) (do return change (← reader)) fun changed => cost (changed value) := by
  refine (h.add (cost value)).bind fun read => spends_pure ?_
  exact Nat.le_of_eq (hChange read value)

end

namespace Node

theorem spends_readLiteral (room : Nat) : Spends 0 (readLiteral room) fun _ => 0 := by
  refine spends_peek _ fun c => ?_
  split
  · exact ((spends_readAtom c).bind fun _ => spends_pure (by decide)).at c
  · refine ((spends_readValue room).bind fun value => ?_).at c
    split
    · exact spends_pure (by decide)
    · exact spends_fail _ _ _

theorem spends_record {text : Reader Text} {literal : Reader (Option Literal)}
    {nodes : Reader (List Node)} (hText : Spends 0 text fun _ => 0)
    (hLiteral : Spends 0 literal fun _ => 0) (hNodes : Spends 0 nodes fun _ => 0) :
    (record text literal nodes).Spends fun _ => 0 :=
  List.forall_mem_cons.mpr ⟨spends_field hText fun _ _ => rfl,
    List.forall_mem_cons.mpr ⟨spends_field hLiteral fun _ _ => rfl,
      List.forall_mem_cons.mpr ⟨spends_field hNodes fun _ _ => rfl,
        List.forall_mem_cons.mpr ⟨spends_field hNodes fun _ _ => rfl, nofun⟩⟩⟩⟩

theorem spends_readWithin (room : Nat) : Spends 0 (readWithin room) fun _ => 0 := by
  have hList {item? : Option (Reader Node)} (h : ∀ item ∈ item?, Spends 0 item fun _ => 0) :
      Spends 0 (readList item?) fun _ => 0 :=
    (spends_readList h).mono (Nat.le_refl 0) fun _ => Nat.zero_le _
  induction room using readWithin.induct with
  | case1 => exact spends_readRecord _ nofun
  | case2 =>
    refine spends_readRecord _ fun record hRecord => ?_
    cases hRecord
    exact ⟨spends_record spends_readText (spends_readLiteral 0) (hList nofun), rfl⟩
  | case3 room ih =>
    refine spends_readRecord _ fun record hRecord => ?_
    cases hRecord
    refine ⟨spends_record spends_readText (spends_readLiteral _) (hList fun item hItem => ?_), rfl⟩
    cases hItem
    exact ih

end Node

/-- A list of values costs as many characters as it has items. -/
theorem spends_readValues (room : Nat) :
    Spends 0 (readList (some (readValue room))) List.length := by
  have hList : Spends 0 (readList (some (readValue room))) fun values =>
      (values.map fun _ => 1).sum :=
    spends_readList fun item hItem => by
      cases hItem
      exact spends_readValue room
  exact hList.mono (Nat.le_refl 0) fun values => by simp

namespace Preview

theorem spends_groupRecord (room : Nat) :
    (groupRecord room).Spends fun group => group.entries.length := by
  refine List.forall_mem_cons.mpr ⟨spends_field spends_readText fun _ _ => rfl,
    List.forall_mem_cons.mpr ⟨fun group => ?_, nofun⟩⟩
  refine ((spends_readValues room).bind fun entries => ?_).mono (Nat.zero_le _) fun _ =>
    Nat.le_refl _
  exact spends_pure (Nat.le_refl _)

/-- How many entries groups have. -/
def entryCount (groups : List Group) : Nat := (groups.map fun group => group.entries.length).sum

theorem spends_responseRecord : responseRecord.Spends entryCount := by
  refine List.forall_mem_cons.mpr ⟨fun groups => ?_, nofun⟩
  have hGroups : Spends 0 (readList (some (readRecord "PreviewGroup".toList
      (some (groupRecord (nestingLimit - 4)))))) entryCount :=
    spends_readList fun item hItem => by
      cases hItem
      refine spends_readRecord _ fun record hRecord => ?_
      cases hRecord
      exact ⟨spends_groupRecord _, rfl⟩
  refine (hGroups.bind fun read => ?_).mono (Nat.zero_le _) fun _ => Nat.le_refl _
  exact spends_pure (Nat.le_refl _)

theorem length_shownEntries_le {text : Text} {groups : List Group}
    (h : readGroups text = .ok groups) : (shownEntries groups).length ≤ text.length := by
  obtain ⟨rest, hRead⟩ := exists_of_readWholeText h
  have hSpent := spends_readRecord _ (fun record hRecord => by
    cases hRecord
    exact ⟨spends_responseRecord, rfl⟩) text groups rest hRead
  have hShown : (shownEntries groups).length ≤ entryCount groups := by
    rw [shownEntries, List.length_flatMap]
    exact (List.filter_sublist.map _).sum_le_sum fun _ _ => Nat.zero_le _
  omega

end Preview

namespace Step

theorem spends_resultRecord : resultRecord.Spends fun result => result.steps.length := by
  refine List.forall_mem_cons.mpr ⟨fun result => ?_,
    List.forall_mem_cons.mpr ⟨spends_field (Node.spends_readWithin _) fun _ _ => rfl, nofun⟩⟩
  refine ((spends_readValues _).bind fun steps => ?_).mono (Nat.zero_le _) fun _ => Nat.le_refl _
  exact spends_pure (Nat.le_refl _)

theorem spends_responseRecord : responseRecord.Spends fun result => result.steps.length := by
  refine List.forall_mem_cons.mpr ⟨fun result => ?_, nofun⟩
  have hResult : Spends 0 (readRecord "StepsResult".toList (some resultRecord))
      fun result => result.steps.length :=
    spends_readRecord _ fun record hRecord => by
      cases hRecord
      exact ⟨spends_resultRecord, rfl⟩
  refine (hResult.bind fun read => ?_).mono (Nat.zero_le _) fun _ => Nat.le_refl _
  exact spends_pure (Nat.le_refl _)

theorem length_steps_le {text : Text} {result : Result} (h : readResult text = .ok result) :
    result.steps.length ≤ text.length := by
  obtain ⟨rest, hRead⟩ := exists_of_readWholeText h
  have hSpent := spends_readRecord _ (fun record hRecord => by
    cases hRecord
    exact ⟨spends_responseRecord, rfl⟩) text result rest hRead
  omega

end Step

/-! ## Entries that are shown -/

namespace Preview

/-- An entry that is shown can be read again within the room that is left for it. -/
theorem isRead_of_mem_shownEntries {text : Text} {groups : List Group}
    (h : readGroups text = .ok groups) {entry : Value} (hEntry : entry ∈ shownEntries groups) :
    entry.IsRead ∧ entry.height ≤ nestingLimit - 3 := by
  have hGroup (room : Nat) : (groupRecord room).Keeps fun group =>
      ∀ entry ∈ group.entries, entry.IsRead ∧ entry.height ≤ room + 1 := by
    refine ⟨nofun, List.forall_mem_cons.mpr ⟨?_, List.forall_mem_cons.mpr ⟨?_, nofun⟩⟩⟩
    · exact yields_bind fun kind => yields_pure fun group hGroup => hGroup
    · have hList := yields_readList fun item (hItem : item ∈ some (readValue room)) => by
        cases hItem
        exact yields_readValue room
      exact hList.bind fun entries hEntries => yields_pure fun _ _ => hEntries
  have hResponse : responseRecord.Keeps fun groups =>
      ∀ group ∈ groups, ∀ entry ∈ group.entries,
        entry.IsRead ∧ entry.height ≤ nestingLimit - 3 := by
    refine ⟨nofun, List.forall_mem_cons.mpr ⟨?_, nofun⟩⟩
    have hList := yields_readList fun item (hItem : item ∈ some (readRecord "PreviewGroup".toList
        (some (groupRecord (nestingLimit - 4))))) => by
      cases hItem
      exact yields_readRecord _ fun record hRecord => by
        cases hRecord
        exact hGroup (nestingLimit - 4)
    exact hList.bind fun groups hGroups => yields_pure fun _ _ => hGroups
  obtain ⟨rest, hRead⟩ := exists_of_readWholeText h
  have hGroups := yields_readRecord _ (fun record hRecord => by
    cases hRecord
    exact hResponse) text groups rest hRead
  obtain ⟨group, hMem, hShown⟩ := List.mem_flatMap.mp hEntry
  exact hGroups group (List.mem_of_mem_filter hMem) entry hShown

/-! ## Actions -/

/-- The action in an entry: the member of that name, or the second item of an entry that is written
as a list; null when there is none. -/
def actionOf : Value → Value
  | .object members => (members.lookup "nodeAction".toList).getD .null
  | .array items => items[1]?.getD .null
  | _ => .null

theorem mem_of_lookup_eq_some {key : Text} {value : Value} {members : List (Text × Value)}
    (h : members.lookup key = some value) : (key, value) ∈ members := by
  induction members with
  | nil => cases h
  | cons member members ih =>
    obtain ⟨other, held⟩ := member
    rw [List.lookup_cons] at h
    split at h
    · rename_i hSame
      cases h
      rw [beq_iff_eq.mp hSame]
      exact List.mem_cons_self
    · exact List.mem_cons_of_mem _ (ih h)

/-- The action of an entry is null, or a part of it. -/
theorem isRead_actionOf {entry : Value} (h : entry.IsRead) :
    (actionOf entry).IsRead ∧ (actionOf entry).height ≤ entry.height := by
  have hNull {bound : Nat} : Value.IsRead .null ∧ Value.height .null ≤ bound + 1 :=
    ⟨.null, Nat.le_add_left 1 bound⟩
  cases h with
  | @array items hItems =>
    rw [actionOf, Value.height]
    cases hItem : items[1]? with
    | none => exact hNull
    | some item =>
      have hMem := List.mem_of_getElem? hItem
      exact ⟨hItems item hMem, Nat.le_succ_of_le (Value.height_le_itemsHeight hMem)⟩
  | @object members _ hMembers =>
    rw [actionOf, Value.height]
    cases hMember : members.lookup "nodeAction".toList with
    | none => exact hNull
    | some value =>
      have hMem := mem_of_lookup_eq_some hMember
      exact ⟨hMembers _ hMem, Nat.le_succ_of_le (Value.height_le_membersHeight hMem)⟩
  | null => exact hNull
  | boolean value => exact hNull
  | number hNumber => exact hNull
  | string text => exact hNull

/-- What reading a field of an entry does to its action: the field of that name sets it. -/
theorem nodeAction_of_field {key : Text} {field : Field Decoder Entry}
    (hField : entryRecord.field? key = some field) {value : Value} {change : Entry → Entry}
    (hRead : field.read value = .ok change) (entry : Entry) :
    (change entry).nodeAction = if key = "nodeAction".toList then value else entry.nodeAction := by
  have hName : field.name = key := by
    have hFound := List.find?_some hField
    exact of_decide_eq_true hFound
  rcases List.mem_cons.mp (Record.mem_of_field? hField) with rfl | hMem
  · obtain ⟨preview, -, hPure⟩ := exists_of_bind_ok hRead
    cases hPure
    exact (if_neg (hName ▸ (by decide : ¬ "preview".toList = "nodeAction".toList))).symm
  · cases List.mem_singleton.mp hMem
    cases hRead
    exact (if_pos hName.symm).symm

theorem nodeAction_of_takeMembers {members : List (Text × Value)} {entry result : Entry}
    (hSorted : Value.IsSorted members)
    (h : Value.takeMembers entryRecord members entry = .ok result) :
    result.nodeAction = (members.lookup "nodeAction".toList).getD entry.nodeAction := by
  induction members generalizing entry with
  | nil =>
    cases h
    rfl
  | cons member members ih =>
    obtain ⟨key, value⟩ := member
    obtain ⟨hAbove, hRest⟩ := List.pairwise_cons.mp hSorted
    rw [Value.takeMembers] at h
    cases hField : entryRecord.field? key with
    | none =>
      have hNe : ("nodeAction".toList == key) = false := by
        refine beq_false_of_ne ?_
        rintro rfl
        cases hField
      simp only [hField] at h
      rw [ih hRest h, List.lookup_cons, hNe]
    | some field =>
      simp only [hField] at h
      obtain ⟨change, hRead, hLater⟩ := exists_of_bind_ok h
      rw [ih hRest hLater, nodeAction_of_field hField hRead, List.lookup_cons]
      by_cases hKey : key = "nodeAction".toList
      · -- Keys rise, so the name does not come again.
        have hNone : members.lookup "nodeAction".toList = none :=
          List.lookup_eq_none_iff.mpr fun member hMember => by
            have hLess := hAbove member hMember
            rw [hKey] at hLess
            refine bne_iff_ne.mpr ?_
            rintro hSame
            rw [hSame] at hLess
            exact List.lt_irrefl _ hLess
        rw [hNone, if_pos hKey, hKey, beq_self_eq_true]
        rfl
      · rw [if_neg hKey, beq_false_of_ne (Ne.symm hKey)]

theorem nodeAction_of_takeItems {items : List Value} {result : Entry}
    (h : Value.takeItems entryRecord items.length entryRecord.fields items 0 entryRecord.blank =
      .ok result) : result.nodeAction = items[1]?.getD .null := by
  match items with
  | [] => cases h
  | [preview] =>
    obtain ⟨change, hRead, hLater⟩ := exists_of_bind_ok h
    cases hLater
    exact @nodeAction_of_field "preview".toList _ rfl _ _ hRead entryRecord.blank
  | [preview, action] =>
    obtain ⟨change, hRead, hLater⟩ := exists_of_bind_ok h
    obtain ⟨second, hAction, hLast⟩ := exists_of_bind_ok hLater
    cases hLast
    exact @nodeAction_of_field "nodeAction".toList _ rfl _ _ hAction _
  | preview :: action :: other :: more =>
    obtain ⟨change, hRead, hLater⟩ := exists_of_bind_ok h
    obtain ⟨second, hAction, hLast⟩ := exists_of_bind_ok hLater
    cases hLast

/-- An entry that is read has the action that it holds. -/
theorem nodeAction_of_toRecord {entry : Value} (hEntry : entry.IsRead) {result : Entry}
    (h : Value.toRecord entryRecord entry = .ok result) : result.nodeAction = actionOf entry := by
  cases hEntry with
  | array hItems => exact nodeAction_of_takeItems h
  | object hSorted hMembers =>
    obtain ⟨taken, hTaken, hComplete⟩ := exists_of_bind_ok h
    unfold Record.complete at hComplete
    split at hComplete
    · cases hComplete
    · cases hComplete
      exact nodeAction_of_takeMembers hSorted hTaken
  | null => cases h
  | boolean value => cases h
  | number hNumber => cases h
  | string text => cases h

/-- A preview passes on the action of its entry. -/
theorem nodeAction_of_ofEntry {settings : Settings} {entry : Value} (hEntry : entry.IsRead)
    {preview : Preview} (h : (ofEntry settings entry).outcome = .ok preview) :
    preview.nodeAction = actionOf entry := by
  obtain ⟨decoded, hDecoded, hRender⟩ := Run.exists_of_outcome_bind_ok h
  have hAction := nodeAction_of_toRecord hEntry (of_mapError_ok hDecoded)
  have hSource := of_mapError_ok hRender
  obtain ⟨title, -, hSource⟩ := Run.exists_of_outcome_bind_ok hSource
  obtain ⟨method, -, hSource⟩ := Run.exists_of_outcome_bind_ok hSource
  obtain ⟨problem, -, hSource⟩ := Run.exists_of_outcome_bind_ok hSource
  obtain ⟨solution, -, hSource⟩ := Run.exists_of_outcome_bind_ok hSource
  cases hSource
  exact hAction

end Preview

end Formulary
