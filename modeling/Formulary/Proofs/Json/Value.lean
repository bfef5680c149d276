import Formulary.Proofs.Json.Member
import Formulary.Proofs.Json.Number
import Formulary.Proofs.Json.Takes

/-!
# Printed values are read

`ReadsAs` says that a text is read as a value whatever stands behind it, and has no NUL. It holds of
the compact text of an array when it holds of the items (`readsAs_array`), and of the text of an
object when it holds of the values of its members, whose order does not matter (`readsAs_object`).
So a value that was read before is read again from its text, with the same strings and the same
order of members; numbers are read as their texts are (`readsAs_print`), and a value whose numbers
are all integers is read as it was (`Value.reread_of_isWhole`).
-/

namespace Formulary.Json

open Reader

/-- A text is a printed value: within the room, it is read as the value. -/
structure ReadsAs (room : Nat) (text : Text) (value : Value) : Prop where
  begins : ∃ c rest, text = c :: rest ∧ isBlank c = false ∧ c ≠ ']'
  takes : ∀ after, EndsNumeral after → (readValue room).Takes (text ++ after) value after
  plain : '\x00' ∉ text

namespace ReadsAs

variable {room : Nat} {text : Text} {value : Value}

/-- What is printed is a whole text. -/
theorem readWholeText_eq (h : ReadsAs room text value) :
    readWholeText (readValue room) text = .ok value := by
  have hTakes := (h.takes [] nofun).reads
  rw [List.append_nil] at hTakes
  rw [readWholeText, hTakes]
  rfl

end ReadsAs

/-! ## Values that hold no others -/

theorem readsAs_of_atom {c : Char} {rest : Text} {value : Value} (hBlank : isBlank c = false)
    (hList : c ≠ '[') (hObject : c ≠ '\x7b') (hEnd : c ≠ ']')
    (hAtom : ∀ after, EndsNumeral after → readAtom c (c :: rest ++ after) = .ok (value, after))
    (hPlain : '\x00' ∉ c :: rest) (room : Nat) : ReadsAs room (c :: rest) value where
  begins := ⟨c, rest, rfl, hBlank, hEnd⟩
  takes after hAfter := by
    refine ⟨?_, ?_⟩
    · rw [List.cons_append, readValue_of_atom hBlank hList hObject]
      exact hAtom after hAfter
    · rw [List.length_append, List.length_cons]
      omega
  plain := hPlain

theorem readsAs_null (room : Nat) : ReadsAs room "null".toList .null := by
  change ReadsAs room ('n' :: "ull".toList) .null
  exact readsAs_of_atom (by decide) (by decide) (by decide) (by decide) (fun _ _ => rfl)
    (by decide) room

theorem readsAs_boolean (value : Bool) (room : Nat) :
    ReadsAs room (if value then "true" else "false").toList (.boolean value) := by
  cases value with
  | true =>
    change ReadsAs room ('t' :: "rue".toList) (.boolean true)
    exact readsAs_of_atom (by decide) (by decide) (by decide) (by decide) (fun _ _ => rfl)
      (by decide) room
  | false =>
    change ReadsAs room ('f' :: "alse".toList) (.boolean false)
    exact readsAs_of_atom (by decide) (by decide) (by decide) (by decide) (fun _ _ => rfl)
      (by decide) room

theorem nul_notMem_escapeChar (c : Char) : '\x00' ∉ escapeChar c := by
  unfold escapeChar
  split
  · decide
  · decide
  · decide
  · decide
  · decide
  · decide
  · decide
  · split
    · rename_i hControl
      have hAll : ∀ n < 32, '\x00' ∉ "\\u".toList ++
          List.replicate (4 - (Nat.toDigits 16 n).length) '0' ++ Nat.toDigits 16 n := by
        decide +kernel
      exact hAll c.toNat hControl
    · rename_i hOther
      intro hMem
      rw [← List.mem_singleton.mp hMem] at hOther
      exact hOther (by decide)

theorem nul_notMem_printString (text : Text) : '\x00' ∉ printString text := by
  have hChars : '\x00' ∉ text.flatMap escapeChar := by
    intro hMem
    obtain ⟨c, -, hc⟩ := List.mem_flatMap.mp hMem
    exact nul_notMem_escapeChar c hc
  simp [printString, hChars]

theorem readsAs_string (text : Text) (room : Nat) :
    ReadsAs room (printString text) (.string text) := by
  refine readsAs_of_atom (by decide) (by decide) (by decide) (by decide) (fun after _ => ?_)
    (nul_notMem_printString text) room
  exact readAtom_printString text after

theorem nul_notMem_number {number : Number} (h : number.IsRead) : '\x00' ∉ number.text := by
  intro hMem
  rcases mem_number h hMem with hDigit | hOther
  · cases hDigit
  · exact absurd hOther (by decide)

theorem readsAs_number {number : Number} (h : number.IsRead) (room : Nat) :
    ReadsAs room number.text (.number number.reread) := by
  obtain ⟨c, rest, hText, hc⟩ := exists_number_eq_cons h
  have hPlain := nul_notMem_number h
  rw [hText] at hPlain ⊢
  refine readsAs_of_atom hc.isBlank (hc.ne rfl (by decide)) (hc.ne rfl (by decide))
    (hc.ne rfl (by decide)) (fun after hAfter => ?_) hPlain room
  rw [← hText]
  exact readAtom_number h hAfter hText

/-! ## Items and members between commas -/

section

variable {room : Nat}

theorem intercalate_comma (first : Text) (rest : List Text) :
    [','].intercalate (first :: rest) = first ++ rest.flatMap (',' :: ·) := by
  induction rest generalizing first with
  | nil => simp
  | cons second rest ih =>
    rw [List.intercalate_cons_cons, ih, List.flatMap_cons, List.append_assoc]
    rfl

theorem endsNumeral_commas (texts : List Text) (c : Char) (hDigit : c.isDigit = false)
    (hPart : c ∉ ['.', 'e', 'E']) (after : Text) :
    EndsNumeral (texts.flatMap (',' :: ·) ++ c :: after) := by
  cases texts with
  | nil => exact endsNumeral_cons hDigit hPart after
  | cons text texts => exact endsNumeral_cons (by decide) (by decide) _

theorem nul_notMem_intercalate {texts : List Text} (h : ∀ text ∈ texts, '\x00' ∉ text) :
    '\x00' ∉ [','].intercalate texts := by
  cases texts with
  | nil => exact List.not_mem_nil
  | cons text texts =>
    obtain ⟨hText, hTexts⟩ := List.forall_mem_cons.mp h
    rw [intercalate_comma, List.mem_append, List.mem_flatMap]
    rintro (hFirst | ⟨other, hOther, hMem⟩)
    · exact hText hFirst
    · rcases List.mem_cons.mp hMem with hComma | hMem
      · exact absurd hComma (by decide)
      · exact hTexts other hOther hMem

theorem forall₂_map {β γ δ : Type} {R : γ → δ → Prop} {f : β → γ} {g : β → δ} {items : List β}
    (h : ∀ item ∈ items, R (f item) (g item)) : List.Forall₂ R (items.map f) (items.map g) :=
  List.forall₂_map_left_iff.mpr (List.forall₂_map_right_iff.mpr (List.forall₂_same.mpr h))

/-! ### Arrays -/

theorem ends_commas {texts : List Text} {values : List Value}
    (h : List.Forall₂ (ReadsAs room) texts values) (after : Text) :
    Ends (readItemsFrom (readValue room) · false) (texts.flatMap (',' :: ·) ++ ']' :: after) values
      after := by
  induction h with
  | nil => exact ends_items _ false after
  | @cons text value texts values hText _ ih =>
    have hTakes := hText.takes _ (endsNumeral_commas texts ']' (by decide) (by decide) after)
    obtain ⟨c, rest, rfl, hBlank, hEnd⟩ := hText.begins
    rw [List.flatMap_cons, List.append_assoc]
    exact ends_items_cons (nextItem_comma hBlank hEnd _) (Nat.le_succ _) hTakes ih

theorem ends_array {texts : List Text} {values : List Value}
    (h : List.Forall₂ (ReadsAs room) texts values) (after : Text) :
    Ends (readItemsFrom (readValue room) · true) ([','].intercalate texts ++ ']' :: after) values
      after := by
  cases h with
  | nil => exact ends_items _ true after
  | @cons text value texts values hText hTexts =>
    have hTakes := hText.takes _ (endsNumeral_commas texts ']' (by decide) (by decide) after)
    obtain ⟨c, rest, rfl, hBlank, hEnd⟩ := hText.begins
    rw [intercalate_comma, List.append_assoc]
    exact ends_items_cons (nextItem_first hBlank hEnd _) (Nat.le_refl _) hTakes
      (ends_commas hTexts after)

/-- A list of printed values is read as the array of what they are read as. -/
theorem readsAs_array {texts : List Text} {values : List Value}
    (h : List.Forall₂ (ReadsAs room) texts values) :
    ReadsAs (room + 1) (printArray texts) (.array values) where
  begins := ⟨'[', _, rfl, by decide, by decide⟩
  takes after _ := by
    obtain ⟨hReads, hShorter⟩ := ends_array h after _ (Nat.lt_succ_self _)
    have hItems : readItems (readValue room) ([','].intercalate texts ++ ']' :: after) =
        .ok (values, after) := hReads
    rw [printArray, List.append_assoc, List.cons_append, List.singleton_append]
    refine ⟨?_, Nat.lt_succ_of_lt hShorter⟩
    rw [readValue, bind_of_ok (peek_cons (by decide) _ _), if_pos rfl,
      bind_of_ok (advance_cons _ _), bind_of_ok hItems]
    rfl
  plain := by
    have hItems : '\x00' ∉ [','].intercalate texts :=
      nul_notMem_intercalate (forall_mem_of_forall₂
        (@List.Forall₂.flip _ _ (flip (ReadsAs room)) _ _ h) fun _ _ _ hReads => hReads.plain)
    simp [printArray, hItems]

/-! ### Objects -/

/-- The text of a member is read as the member. -/
def MemberReadsAs (room : Nat) (member : Text × Text) (value : Text × Value) : Prop :=
  member.1 = value.1 ∧ ReadsAs room member.2 value.2

/-- The texts of members. -/
def memberTexts (members : List (Text × Text)) : List Text :=
  members.map fun (key, value) => printMember key value

theorem ends_memberCommas {members : List (Text × Text)} {values : List (Text × Value)}
    (h : List.Forall₂ (MemberReadsAs room) members values) (after : Text) :
    Ends (readMembersFrom (readValue room) · false)
      ((memberTexts members).flatMap (',' :: ·) ++ '\x7d' :: after) values after := by
  induction h with
  | nil => exact ends_members _ false after
  | @cons member value members values hMember _ ih =>
    obtain ⟨key, text⟩ := member
    obtain ⟨key, value⟩ := value
    obtain ⟨rfl, hText⟩ := hMember
    have hTakes := hText.takes _
      (endsNumeral_commas (memberTexts members) '\x7d' (by decide) (by decide) after)
    change Ends _ (',' :: (printString key ++ ':' :: text) ++
      (memberTexts members).flatMap (',' :: ·) ++ '\x7d' :: after) _ _
    rw [List.append_assoc, List.cons_append, List.append_assoc, List.cons_append]
    exact ends_members_cons (nextKey_comma key _)
      (Nat.le_succ_of_le (length_le_member key _)) hTakes ih

theorem ends_object {members : List (Text × Text)} {values : List (Text × Value)}
    (h : List.Forall₂ (MemberReadsAs room) members values) (after : Text) :
    Ends (readMembersFrom (readValue room) · true)
      ([','].intercalate (memberTexts members) ++ '\x7d' :: after) values after := by
  cases h with
  | nil => exact ends_members _ true after
  | @cons member value members values hMember hMembers =>
    obtain ⟨key, text⟩ := member
    obtain ⟨key, value⟩ := value
    obtain ⟨rfl, hText⟩ := hMember
    have hTakes := hText.takes _
      (endsNumeral_commas (memberTexts members) '\x7d' (by decide) (by decide) after)
    change Ends _ ([','].intercalate ((printString key ++ ':' :: text) :: memberTexts members) ++
      '\x7d' :: after) _ _
    rw [intercalate_comma, List.append_assoc, List.append_assoc, List.cons_append]
    exact ends_members_cons (nextKey_first key _) (length_le_member key _) hTakes
      (ends_memberCommas hMembers after)

/-- Printed members are read as the object with what they are read as, in whatever order they are
printed. -/
theorem readsAs_object {members : List (Text × Text)} {values : List (Text × Value)}
    (h : List.Forall₂ (MemberReadsAs room) members values) :
    ReadsAs (room + 1) (printObject members) (.object (Value.members values)) where
  begins := ⟨'\x7b', _, rfl, by decide, by decide⟩
  takes after _ := by
    obtain ⟨hReads, hShorter⟩ := ends_object h after _ (Nat.lt_succ_self _)
    have hMembers : readMembers (readValue room)
        ([','].intercalate (memberTexts members) ++ '\x7d' :: after) = .ok (values, after) := hReads
    change (readValue (room + 1)).Takes
      ('\x7b' :: [','].intercalate (memberTexts members) ++ ['\x7d'] ++ after) _ _
    rw [List.append_assoc, List.cons_append, List.singleton_append]
    refine ⟨?_, Nat.lt_succ_of_lt hShorter⟩
    rw [readValue, bind_of_ok (peek_cons (by decide) _ _), if_neg (by decide), if_pos rfl,
      bind_of_ok (advance_cons _ _), bind_of_ok hMembers]
    rfl
  plain := by
    have hMembers : '\x00' ∉ [','].intercalate (memberTexts members) := by
      refine nul_notMem_intercalate fun text hText => ?_
      obtain ⟨member, hMember, rfl⟩ := List.mem_map.mp hText
      have hValue : '\x00' ∉ member.2 := forall_mem_of_forall₂
        (@List.Forall₂.flip _ _ (flip (MemberReadsAs room)) _ _ h)
        (fun _ _ _ hReads => hReads.2.plain) member hMember
      simp [printMember, nul_notMem_printString, hValue]
    change '\x00' ∉ '\x7b' :: [','].intercalate (memberTexts members) ++ ['\x7d']
    simp [hMembers]

end

/-! ## Values -/

namespace Value

mutual

/-- A value with each number as its text is read. -/
def reread : Value → Value
  | .number held => .number held.reread
  | .array items => .array (rereadItems items)
  | .object members => .object (rereadMembers members)
  | value => value

/-- The items of an array with each number as its text is read. -/
def rereadItems : List Value → List Value
  | [] => []
  | item :: rest => item.reread :: rereadItems rest

/-- The members of an object with each number as its text is read. -/
def rereadMembers : List (Text × Value) → List (Text × Value)
  | [] => []
  | (key, item) :: rest => (key, item.reread) :: rereadMembers rest

end

mutual

/-- All numbers in a value. -/
def numbers : Value → List Number
  | .number held => [held]
  | .array items => itemNumbers items
  | .object members => memberNumbers members
  | _ => []

/-- All numbers in the items of an array. -/
def itemNumbers : List Value → List Number
  | [] => []
  | item :: rest => item.numbers ++ itemNumbers rest

/-- All numbers in the members of an object. -/
def memberNumbers : List (Text × Value) → List Number
  | [] => []
  | (_, item) :: rest => item.numbers ++ memberNumbers rest

end

/-- A value that a reader can give: its numbers can be read, and its members are sorted. -/
inductive IsRead : Value → Prop
  | null : IsRead .null
  | boolean (value : Bool) : IsRead (.boolean value)
  | number {number : Number} (hNumber : number.IsRead) : IsRead (.number number)
  | string (text : Text) : IsRead (.string text)
  | array {items : List Value} (hItems : ∀ item ∈ items, IsRead item) : IsRead (.array items)
  | object {members : List (Text × Value)} (hSorted : IsSorted members)
    (hMembers : ∀ member ∈ members, IsRead member.2) : IsRead (.object members)

theorem rereadItems_eq (items : List Value) : rereadItems items = items.map reread := by
  induction items with
  | nil => rfl
  | cons item items ih => rw [rereadItems, ih, List.map_cons]

theorem rereadMembers_eq (members : List (Text × Value)) :
    rereadMembers members = members.map fun member => (member.1, member.2.reread) := by
  induction members with
  | nil => rfl
  | cons member members ih =>
    obtain ⟨key, item⟩ := member
    rw [rereadMembers, ih, List.map_cons]

theorem printItems_eq (items : List Value) : printItems items = items.map print := by
  induction items with
  | nil => rfl
  | cons item items ih => rw [printItems, ih, List.map_cons]

theorem printMembers_eq (members : List (Text × Value)) :
    printMembers members = members.map fun member => (member.1, member.2.print) := by
  induction members with
  | nil => rfl
  | cons member members ih =>
    obtain ⟨key, item⟩ := member
    rw [printMembers, ih, List.map_cons]

theorem isSorted_rereadMembers {members : List (Text × Value)} (h : IsSorted members) :
    IsSorted (rereadMembers members) := by
  rw [rereadMembers_eq, IsSorted, List.pairwise_map]
  exact h

theorem height_le_itemsHeight {item : Value} {items : List Value} (h : item ∈ items) :
    item.height ≤ itemsHeight items := by
  induction items with
  | nil => cases h
  | cons first rest ih =>
    rw [itemsHeight]
    rcases List.mem_cons.mp h with rfl | hRest
    · exact Nat.le_max_left _ _
    · exact Nat.le_trans (ih hRest) (Nat.le_max_right _ _)

theorem height_le_membersHeight {member : Text × Value} {members : List (Text × Value)}
    (h : member ∈ members) : member.2.height ≤ membersHeight members := by
  induction members with
  | nil => cases h
  | cons first rest ih =>
    obtain ⟨key, item⟩ := first
    rw [membersHeight]
    rcases List.mem_cons.mp h with rfl | hRest
    · exact Nat.le_max_left _ _
    · exact Nat.le_trans (ih hRest) (Nat.le_max_right _ _)

/-- A value that fits the room is read again from its text. -/
theorem readsAs_print {value : Value} (h : value.IsRead) {room : Nat}
    (hRoom : value.height ≤ room) : ReadsAs room value.print value.reread := by
  induction h generalizing room with
  | null => exact readsAs_null room
  | boolean value => exact readsAs_boolean value room
  | number hNumber => exact readsAs_number hNumber room
  | string text => exact readsAs_string text room
  | @array items _ ih =>
    obtain ⟨room, rfl⟩ := Nat.exists_eq_add_one_of_ne_zero (Nat.ne_zero_of_lt hRoom)
    have hItems : itemsHeight items ≤ room := Nat.le_of_succ_le_succ hRoom
    rw [print, reread, rereadItems_eq, printItems_eq]
    refine readsAs_array (forall₂_map fun item hItem => ?_)
    exact ih item hItem (Nat.le_trans (height_le_itemsHeight hItem) hItems)
  | @object members hSorted _ ih =>
    obtain ⟨room, rfl⟩ := Nat.exists_eq_add_one_of_ne_zero (Nat.ne_zero_of_lt hRoom)
    have hMembers : membersHeight members ≤ room := Nat.le_of_succ_le_succ hRoom
    rw [print, reread, ← members_eq_self (isSorted_rereadMembers hSorted), rereadMembers_eq,
      printMembers_eq]
    refine readsAs_object (forall₂_map fun member hMember => ⟨rfl, ?_⟩)
    exact ih member hMember (Nat.le_trans (height_le_membersHeight hMember) hMembers)

theorem itemNumbers_eq (items : List Value) : itemNumbers items = items.flatMap numbers := by
  induction items with
  | nil => rfl
  | cons item items ih => rw [itemNumbers, ih, List.flatMap_cons]

theorem memberNumbers_eq (members : List (Text × Value)) :
    memberNumbers members = members.flatMap fun member => member.2.numbers := by
  induction members with
  | nil => rfl
  | cons member members ih =>
    obtain ⟨key, item⟩ := member
    rw [memberNumbers, ih, List.flatMap_cons]

/-- All numbers in a value are integers. -/
def IsWhole (value : Value) : Prop := ∀ number ∈ value.numbers, number.IsWhole

instance : DecidablePred IsWhole := fun value =>
  inferInstanceAs (Decidable (∀ number ∈ value.numbers, number.IsWhole))

/-- A value all of whose numbers are integers is read as it was. -/
theorem reread_of_isWhole {value : Value} (h : value.IsRead) (hWhole : value.IsWhole) :
    value.reread = value := by
  induction h with
  | null => rfl
  | boolean value => rfl
  | number hNumber =>
    rw [reread, Json.reread_of_isWhole hNumber (hWhole _ List.mem_cons_self)]
  | string text => rfl
  | @array items _ ih =>
    rw [IsWhole, numbers, itemNumbers_eq] at hWhole
    rw [reread, rereadItems_eq]
    refine congrArg array ((List.map_congr_left fun item hItem => ?_).trans (List.map_id items))
    exact ih item hItem fun number hNumber =>
      hWhole number (List.mem_flatMap.mpr ⟨item, hItem, hNumber⟩)
  | @object members _ _ ih =>
    rw [IsWhole, numbers, memberNumbers_eq] at hWhole
    rw [reread, rereadMembers_eq]
    refine congrArg object
      ((List.map_congr_left fun member hMember => ?_).trans (List.map_id members))
    rw [ih member hMember fun number hNumber =>
      hWhole number (List.mem_flatMap.mpr ⟨member, hMember, hNumber⟩)]
    rfl

end Value

/-! ## Values that are read -/

theorem itemsHeight_le {items : List Value} {bound : Nat}
    (h : ∀ item ∈ items, item.height ≤ bound) : Value.itemsHeight items ≤ bound := by
  induction items with
  | nil => exact Nat.zero_le bound
  | cons item items ih =>
    obtain ⟨hItem, hItems⟩ := List.forall_mem_cons.mp h
    exact Nat.max_le.mpr ⟨hItem, ih hItems⟩

theorem membersHeight_le {members : List (Text × Value)} {bound : Nat}
    (h : ∀ member ∈ members, member.2.height ≤ bound) : Value.membersHeight members ≤ bound := by
  induction members with
  | nil => exact Nat.zero_le bound
  | cons member members ih =>
    obtain ⟨hMember, hMembers⟩ := List.forall_mem_cons.mp h
    exact Nat.max_le.mpr ⟨hMember, ih hMembers⟩

theorem yields_readAtom (c : Char) :
    (readAtom c).Yields fun value => value.IsRead ∧ value.height = 1 := by
  unfold readAtom
  split
  · exact yields_bind fun _ => yields_bind fun _ => yields_pure ⟨.null, rfl⟩
  · split
    · exact yields_bind fun _ => yields_bind fun _ => yields_pure ⟨.boolean true, rfl⟩
    · split
      · exact yields_bind fun _ => yields_bind fun _ => yields_pure ⟨.boolean false, rfl⟩
      · split
        · exact yields_bind fun _ => (yields_readNumber true).bind fun _ hNumber =>
            yields_pure ⟨.number hNumber, rfl⟩
        · split
          · exact (yields_readNumber false).bind fun _ hNumber =>
              yields_pure ⟨.number hNumber, rfl⟩
          · split
            · exact yields_bind fun _ => yields_bind fun text => yields_pure ⟨.string text, rfl⟩
            · exact yields_fail _ _

/-- What is read within a room can be read again, and is no higher than the room. -/
theorem yields_readValue (room : Nat) :
    (readValue room).Yields fun value => value.IsRead ∧ value.height ≤ room + 1 := by
  have hAtom (room : Nat) (c : Char) :
      (readAtom c).Yields fun value => value.IsRead ∧ value.height ≤ room + 1 := by
    intro text value rest h
    obtain ⟨hRead, hHeight⟩ := yields_readAtom c text value rest h
    exact ⟨hRead, by omega⟩
  induction room with
  | zero =>
    refine yields_bind fun c => ?_
    split
    · exact yields_fail _ _
    · exact hAtom 0 c
  | succ room ih =>
    refine yields_bind fun c => ?_
    split
    · refine yields_bind fun _ => (yields_readItems ih).bind fun items hItems => yields_pure ?_
      exact ⟨.array fun item hItem => (hItems item hItem).1,
        Nat.succ_le_succ (itemsHeight_le fun item hItem => (hItems item hItem).2)⟩
    · split
      · refine yields_bind fun _ => (yields_readMembers ih).bind fun entries hEntries =>
          yields_pure ?_
        have hMembers : ∀ member ∈ Value.members entries,
            member.2.IsRead ∧ member.2.height ≤ room + 1 := fun member hMember =>
          hEntries member (Value.mem_of_mem_members hMember)
        exact ⟨.object (Value.isSorted_members entries) fun member hMember =>
            (hMembers member hMember).1,
          Nat.succ_le_succ (membersHeight_le fun member hMember => (hMembers member hMember).2)⟩
      · exact hAtom (room + 1) c

end Formulary.Json
