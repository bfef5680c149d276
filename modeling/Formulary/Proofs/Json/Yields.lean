import Formulary.Json.Record
import Formulary.Proofs.Render.Run

/-!
# What readers yield

`Yields` says what every value has that a reader takes from a text, whatever the text is and however
it goes on. It holds of a list when it holds of the items (`yields_readList`), and of a record when
it holds of the record before it is read and every field keeps it, whether the record is written as
an object or as a list and whatever members are passed over (`yields_readRecord`).
-/

namespace Formulary.Json

variable {α β : Type}

namespace Reader

/-- Every value that is read has a property. -/
def Yields (reader : Reader α) (P : α → Prop) : Prop :=
  ∀ text value rest, reader text = .ok (value, rest) → P value

theorem yields_pure {P : α → Prop} {value : α} (h : P value) : Yields (pure value) P := by
  intro text other rest hOther
  cases hOther
  exact h

theorem yields_fail (fault : Fault) (P : α → Prop) : Yields (fail fault) P := by
  intro text value rest h
  cases h

theorem yields_true (reader : Reader α) : Yields reader fun _ => True :=
  fun _ _ _ _ => trivial

theorem Yields.bind {reader : Reader α} {next : α → Reader β} {P : α → Prop} {Q : β → Prop}
    (h : reader.Yields P) (hNext : ∀ value, P value → Yields (next value) Q) :
    Yields (reader >>= next) Q := by
  intro text result rest hResult
  obtain ⟨⟨value, between⟩, hValue, hRest⟩ := exists_of_bind_ok hResult
  exact hNext value (h _ _ _ hValue) _ _ _ hRest

/-- What comes before does not matter to what is read last. -/
theorem yields_bind {reader : Reader α} {next : α → Reader β} {Q : β → Prop}
    (hNext : ∀ value, Yields (next value) Q) : Yields (reader >>= next) Q :=
  (yields_true reader).bind fun value _ => hNext value

end Reader

open Reader

/-- Nothing is read from what stands in the place of another value. -/
theorem yields_unexpected (expected : Text) (P : α → Prop) : Yields (unexpected expected) P := by
  refine yields_bind fun c => ?_
  split
  · exact yields_fail _ P
  · split
    · exact yields_fail _ P
    · exact yields_bind fun value => yields_fail _ P

/-! ## Lists and objects -/

theorem yields_readItemsFrom {item : Reader α} {P : α → Prop} (h : item.Yields P) (bound : Nat)
    (first : Bool) :
    Yields (readItemsFrom item bound first) fun values => ∀ value ∈ values, P value := by
  induction bound generalizing first with
  | zero => exact yields_fail _ _
  | succ bound ih =>
    refine yields_bind fun more => ?_
    split
    · refine h.bind fun value hValue => (ih false).bind fun rest hRest => yields_pure ?_
      exact List.forall_mem_cons.mpr ⟨hValue, hRest⟩
    · exact yields_pure nofun

theorem yields_readItems {item : Reader α} {P : α → Prop} (h : item.Yields P) :
    Yields (readItems item) fun values => ∀ value ∈ values, P value :=
  fun text => yields_readItemsFrom h (text.length + 1) true text

theorem yields_readMembersFrom {item : Reader α} {P : α → Prop} (h : item.Yields P) (bound : Nat)
    (first : Bool) :
    Yields (readMembersFrom item bound first) fun members =>
      ∀ member ∈ members, P member.2 := by
  induction bound generalizing first with
  | zero => exact yields_fail _ _
  | succ bound ih =>
    refine yields_bind fun key? => ?_
    cases key? with
    | none => exact yields_pure nofun
    | some key =>
      refine yields_bind fun _ => h.bind fun value hValue =>
        (ih false).bind fun rest hRest => yields_pure ?_
      exact List.forall_mem_cons.mpr ⟨hValue, hRest⟩

theorem yields_readMembers {item : Reader α} {P : α → Prop} (h : item.Yields P) :
    Yields (readMembers item) fun members => ∀ member ∈ members, P member.2 :=
  fun text => yields_readMembersFrom h (text.length + 1) true text

/-- The items of a list have what each of them has; where there is no room, there is no list. -/
theorem yields_readList {item? : Option (Reader α)} {P : α → Prop}
    (h : ∀ item ∈ item?, item.Yields P) :
    Yields (readList item?) fun values => ∀ value ∈ values, P value := by
  refine yields_bind fun c => ?_
  split
  · cases item? with
    | none => exact yields_fail _ _
    | some item => exact yields_bind fun _ => yields_readItems (h item rfl)
  · exact yields_unexpected _ _

/-! ## Whole texts -/

theorem exists_of_readWholeText {value : Reader α} {text : Text} {result : α}
    (h : readWholeText value text = .ok result) : ∃ rest, value text = .ok (result, rest) := by
  obtain ⟨⟨read, rest⟩, hRead, hEnd⟩ := exists_of_bind_ok h
  simp only at hEnd
  split at hEnd <;> cases hEnd
  exact ⟨rest, hRead⟩

/-! ## Records -/

/-- The record before it is read has a property, and reading a field keeps it. -/
structure Record.Keeps (record : Record Reader α) (P : α → Prop) : Prop where
  blank : P record.blank
  fields : ∀ field ∈ record.fields,
    field.read.Yields fun change => ∀ value, P value → P (change value)

namespace Record

variable {record : Record Reader α} {P : α → Prop}

theorem mem_of_field? {m : Type → Type} {record : Record m α} {key : Text} {field : Field m α}
    (h : record.field? key = some field) : field ∈ record.fields :=
  List.mem_of_find?_eq_some h

theorem Keeps.complete (keys : List Text) {value : α} (hValue : P value) :
    Yields (StateT.lift (record.complete keys value)) P := by
  intro text result rest hResult
  obtain ⟨other, hOther, hPure⟩ := exists_of_bind_ok hResult
  cases hPure
  unfold Record.complete at hOther
  split at hOther
  · cases hOther
  · cases hOther
    exact hValue

theorem Keeps.readFieldsFrom (h : record.Keeps P) (bound : Nat) (first : Bool) (seen : List Text)
    {value : α} (hValue : P value) : Yields (readFieldsFrom record bound first seen value) P := by
  induction bound generalizing first seen value with
  | zero => exact yields_fail _ P
  | succ bound ih =>
    refine yields_bind fun key? => ?_
    cases key? with
    | none => exact Keeps.complete seen hValue
    | some key =>
      cases hField : record.field? key with
      | none =>
        simp only [hField]
        exact yields_bind fun _ => yields_bind fun _ => ih false seen hValue
      | some field =>
        simp only [hField]
        split
        · exact yields_fail _ P
        · refine yields_bind fun _ => ?_
          refine (h.fields field (mem_of_field? hField)).bind fun change hChange => ?_
          exact ih false (key :: seen) (hChange value hValue)

theorem Keeps.readFieldItems (h : record.Keeps P) {fields : List (Field Reader α)}
    (hFields : fields ⊆ record.fields) (index : Nat) {value : α} (hValue : P value) :
    Yields (readFieldItems record fields index value) P := by
  induction fields generalizing index value with
  | nil => exact yields_bind fun _ => yields_pure hValue
  | cons field rest ih =>
    obtain ⟨hField, hRest⟩ := List.cons_subset.mp hFields
    refine yields_bind fun more => ?_
    split
    · exact (h.fields field hField).bind fun change hChange =>
        ih hRest (index + 1) (hChange value hValue)
    · split
      · exact yields_fail _ P
      · exact yields_pure hValue

end Record

/-- A record has what it has before it is read and what its fields keep, in both forms; where there
is no room, there is no record. -/
theorem yields_readRecord (name : Text) {record? : Option (Record Reader α)} {P : α → Prop}
    (h : ∀ record ∈ record?, record.Keeps P) : Yields (readRecord name record?) P := by
  refine yields_bind fun c => ?_
  split
  · cases record? with
    | none => exact yields_fail _ P
    | some record =>
      have hKeeps := h record rfl
      exact yields_bind fun _ => hKeeps.readFieldItems (List.Subset.refl _) 0 hKeeps.blank
  · split
    · cases record? with
      | none => exact yields_fail _ P
      | some record =>
        have hKeeps := h record rfl
        exact yields_bind fun _ text =>
          hKeeps.readFieldsFrom (text.length + 1) true [] hKeeps.blank text
    · exact yields_unexpected _ P

end Formulary.Json
