import Formulary.Toml.Settings
import Mathlib.Data.List.Nodup
import Mathlib.Data.Option.Basic

/-!
# What a document says about the settings

However the lines of a document put its table together, no key stands twice in it (`nodup_read`).
Each entry of the table names a field and holds a value that fits it, or the document is refused
(`ofDocument?_eq_none_iff`). The settings hold these values, and the default in every field that no
entry names (`ofDocument?_eq_some_iff`). The order of the entries does not matter, because what is
put into one field is not seen in another (`get_put_of_ne`).
-/

namespace Formulary

namespace Toml

/-! ## Keys -/

namespace Table

/-- The keys of a table. -/
def keys (table : Table) : List Text := table.map Prod.fst

/-- A change of one entry keeps the keys, or adds one that was not there. -/
theorem keys_alter {key : Text} {change : Option Item → Option Item} {table changed : Table}
    (h : table.alter key change = some changed) :
    changed.keys = table.keys ∨ key ∉ table.keys ∧ changed.keys = table.keys ++ [key] := by
  induction table generalizing changed with
  | nil =>
    obtain ⟨item, -, rfl⟩ := Option.map_eq_some_iff.mp h
    exact .inr ⟨List.not_mem_nil, rfl⟩
  | cons entry rest ih =>
    obtain ⟨other, item⟩ := entry
    rw [alter] at h
    split at h
    · obtain ⟨item, -, rfl⟩ := Option.map_eq_some_iff.mp h
      exact .inl rfl
    · rename_i hOther
      obtain ⟨later, hLater, rfl⟩ := Option.map_eq_some_iff.mp h
      rcases ih hLater with hKeys | ⟨hNew, hKeys⟩
      · exact .inl (congrArg (other :: ·) hKeys)
      · refine .inr ⟨?_, congrArg (other :: ·) hKeys⟩
        exact List.not_mem_cons_of_ne_of_not_mem (Ne.symm hOther) hNew

theorem nodup_alter {key : Text} {change : Option Item → Option Item} {table changed : Table}
    (h : table.alter key change = some changed) (hTable : table.keys.Nodup) :
    changed.keys.Nodup := by
  rcases keys_alter h with hKeys | ⟨hNew, hKeys⟩
  · rwa [hKeys]
  · rw [hKeys]
    exact hTable.append (List.nodup_singleton key) (List.disjoint_singleton.mpr hNew)

variable {item : Item} {path : List Text} {table changed : Table}

theorem nodup_define (h : table.define item path = some changed) (hTable : table.keys.Nodup) :
    changed.keys.Nodup := by
  match path with
  | [] => cases h
  | [_] | _ :: _ :: _ => exact nodup_alter h hTable

theorem nodup_openHeader (h : table.openHeader path = some changed) (hTable : table.keys.Nodup) :
    changed.keys.Nodup := by
  match path with
  | [] => cases h
  | [_] | _ :: _ :: _ => exact nodup_alter h hTable

theorem nodup_within {change : Table → Option Table}
    (hChange : ∀ {table changed}, change table = some changed → table.keys.Nodup →
      changed.keys.Nodup)
    (h : table.within change path = some changed) (hTable : table.keys.Nodup) :
    changed.keys.Nodup := by
  match path with
  | [] => exact hChange h hTable
  | _ :: _ => exact nodup_alter h hTable

end Table

theorem nodup_tableOfLines {lines : List Line} {path : List Text} {table last : Table}
    (h : tableOfLines lines path table = some last) (hTable : table.keys.Nodup) :
    last.keys.Nodup := by
  induction lines generalizing path table with
  | nil =>
    cases h
    exact hTable
  | cons line rest ih =>
    cases line with
    | empty => exact ih h hTable
    | header path =>
      obtain ⟨opened, hOpened, hRest⟩ := Option.bind_eq_some_iff.mp h
      exact ih hRest (Table.nodup_openHeader hOpened hTable)
    | pair key item =>
      obtain ⟨defined, hDefined, hRest⟩ := Option.bind_eq_some_iff.mp h
      exact ih hRest (Table.nodup_within Table.nodup_define hDefined hTable)

/-- The keys of a document are distinct. -/
theorem nodup_read {text : Text} {table : Table} (h : read text = some table) :
    table.keys.Nodup := by
  obtain ⟨⟨lines, rest⟩, -, hTable⟩ := Option.bind_eq_some_iff.mp h
  exact nodup_tableOfLines hTable List.nodup_nil

end Toml

namespace Settings

open Toml (Item Table)

variable {settings start : Settings} {field other : Field} {name : Text} {entry : Text × Item}
  {table : Table}

/-! ## Fields -/

theorem Field.ofName?_eq_some_iff : Field.ofName? name = some field ↔ field.name = name := by
  constructor
  · intro h
    rw [Field.ofName?] at h
    simpa using List.find?_some h
  · rintro rfl
    cases field <;> rfl

theorem Field.name_injective (h : field.name = other.name) : field = other := by
  have hField := Field.ofName?_eq_some_iff.mpr h
  rw [Field.ofName?_eq_some_iff.mpr rfl] at hField
  exact (Option.some.inj hField).symm

@[simp]
theorem get_put (settings : Settings) (field : Field) (value : field.Holds) :
    (settings.put field value).get field = value := by
  cases field <;> rfl

/-- What is put into one field is not seen in another. -/
theorem get_put_of_ne (h : other ≠ field) (settings : Settings) (value : field.Holds) :
    (settings.put field value).get other = settings.get other := by
  cases field <;> cases other <;> simp [put, get] at h ⊢

/-- Settings are what they hold in their fields. -/
theorem ext_get {first second : Settings} (h : ∀ field, first.get field = second.get field) :
    first = second := by
  obtain ⟨maxDepth, substitution, displayFractions, pipeSizing, mathStyle, answerHeader⟩ := first
  obtain rfl : maxDepth = _ := h .maxDepth
  obtain rfl : substitution = _ := h .substitution
  obtain rfl : displayFractions = _ := h .displayFractions
  obtain rfl : pipeSizing = _ := h .pipeSizing
  obtain rfl : mathStyle = _ := h .mathStyle
  obtain rfl : answerHeader = _ := h .answerHeader
  rfl

/-! ## Entries -/

/-- An entry that sets a field names it and holds a value for it. -/
theorem set_eq_some_iff {changed : Settings} :
    settings.set entry = some changed ↔ ∃ field : Field, field.name = entry.1 ∧
      ∃ value, field.read? entry.2 = some value ∧ settings.put field value = changed := by
  simp only [set, Option.bind_eq_bind, Option.bind_eq_some_iff, Field.ofName?_eq_some_iff,
    Option.pure_def, Option.some.injEq]

/-- Whether an entry is refused does not depend on the settings that it is to change. -/
theorem set_eq_none_iff :
    settings.set entry = none ↔
      ∀ field : Field, field.name = entry.1 → field.read? entry.2 = none := by
  simp only [Option.eq_none_iff_forall_ne_some, ne_eq, set_eq_some_iff]
  constructor
  · exact fun h field hName value hRead => h _ ⟨field, hName, value, hRead, rfl⟩
  · rintro h changed ⟨field, hName, value, hRead, -⟩
    exact h field hName value hRead

/-- The settings hold what the entries of a table say, and in the fields that none of them names
what they start with. -/
structure Follows (start : Settings) (table : Table) (settings : Settings) : Prop where
  named : ∀ entry ∈ table,
    ∃ field : Field, field.name = entry.1 ∧ field.read? entry.2 = some (settings.get field)
  others : ∀ field : Field, field.name ∉ table.keys → settings.get field = start.get field

theorem follows_nil_iff : Follows start [] settings ↔ settings = start := by
  constructor
  · exact fun h => ext_get fun field => h.others field List.not_mem_nil
  · rintro rfl
    exact ⟨fun entry hMem => absurd hMem List.not_mem_nil, fun _ _ => rfl⟩

/-- Where no later entry names the field of the first one, the first one may be put into the
settings before the others. -/
theorem follows_cons_iff (hNew : entry.1 ∉ table.keys) :
    Follows start (entry :: table) settings ↔
      ∃ changed, start.set entry = some changed ∧ Follows changed table settings := by
  simp only [set_eq_some_iff]
  constructor
  · intro h
    obtain ⟨field, hName, hRead⟩ := h.named entry List.mem_cons_self
    refine ⟨_, ⟨field, hName, _, hRead, rfl⟩, ?_⟩
    refine ⟨fun later hMem => h.named later (List.mem_cons_of_mem _ hMem), fun other hOther => ?_⟩
    by_cases hField : other = field
    · subst hField
      rw [get_put]
    · rw [get_put_of_ne hField]
      refine h.others other (List.not_mem_cons_of_ne_of_not_mem (fun hSame => ?_) hOther)
      exact hField (Field.name_injective (hSame.trans hName.symm))
  · rintro ⟨_, ⟨field, hName, value, hRead, rfl⟩, h⟩
    constructor
    · intro later hMem
      rcases List.mem_cons.mp hMem with rfl | hRest
      · have hHere := h.others field (hName ▸ hNew)
        rw [get_put] at hHere
        exact ⟨field, hName, hHere ▸ hRead⟩
      · exact h.named later hRest
    · intro other hOther
      obtain ⟨hHere, hRest⟩ := List.ne_and_not_mem_of_not_mem_cons hOther
      rw [h.others other hRest]
      refine get_put_of_ne (fun hField => hHere ?_) start value
      rw [hField, hName]

/-- Entries with distinct keys give the settings that follow them. -/
theorem foldlM_set_eq_some_iff (hKeys : table.keys.Nodup) :
    table.foldlM set start = some settings ↔ Follows start table settings := by
  induction table generalizing start with
  | nil => rw [follows_nil_iff, List.foldlM_nil, Option.pure_def, Option.some.injEq, eq_comm]
  | cons entry rest ih =>
    obtain ⟨hNew, hRest⟩ := List.nodup_cons.mp hKeys
    simp only [List.foldlM_cons, Option.bind_eq_bind, Option.bind_eq_some_iff,
      follows_cons_iff hNew, ih hRest]

/-- Entries are refused when one of them is. -/
theorem foldlM_set_eq_none_iff :
    table.foldlM set start = none ↔
      ∃ entry ∈ table, ∀ field : Field, field.name = entry.1 → field.read? entry.2 = none := by
  induction table generalizing start with
  | nil => simp
  | cons entry rest ih =>
    rw [List.foldlM_cons, List.exists_mem_cons_iff, ← @set_eq_none_iff start]
    cases hSet : start.set entry with
    | none => simp
    | some changed =>
      simp only [reduceCtorEq, false_or]
      exact ih

/-! ## Documents -/

/-- A document gives the settings that hold what its entries say, each in the field that it names,
and the defaults in the other fields. -/
theorem ofDocument?_eq_some_iff {text : Text} :
    ofDocument? text = some settings ↔
      ∃ table, Toml.read text = some table ∧ Follows {} table settings := by
  rw [ofDocument?, Option.bind_eq_some_iff]
  refine exists_congr fun table => and_congr_right fun hTable => ?_
  exact foldlM_set_eq_some_iff (Toml.nodup_read hTable)

/-- A document is refused when it has an entry that names no field, or whose value does not fit the
field that it names. -/
theorem ofDocument?_eq_none_iff {text : Text} :
    ofDocument? text = none ↔
      ∀ table, Toml.read text = some table →
        ∃ entry ∈ table, ∀ field : Field, field.name = entry.1 → field.read? entry.2 = none := by
  simp only [ofDocument?, Option.bind_eq_none_iff, ofTable, foldlM_set_eq_none_iff]

end Settings

end Formulary
