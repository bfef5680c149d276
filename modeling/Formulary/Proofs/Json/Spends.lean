import Formulary.Proofs.Json.Yields
import Mathlib.Algebra.GroupWithZero.Nat

/-!
# What readers spend

No reader leaves more than it was given. `Spends` counts this: a reader that starts with a credit
leaves so many characters that they, and the cost of the value that is read, are covered by the
credit and the text. A value costs a character (`spends_readValue`), a list costs what its items do
(`spends_readList`), and a record what its fields add to it (`spends_readRecord`), whatever members
are passed over. So a text holds no more entries than characters.
-/

namespace Formulary.Json

variable {α β : Type}

namespace Reader

/-- The cost of a value that is read and what is left are covered by the credit and the text. -/
def Spends (credit : Nat) (reader : Reader α) (cost : α → Nat) : Prop :=
  ∀ text value rest, reader text = .ok (value, rest) →
    cost value + rest.length ≤ credit + text.length

/-- The same for a text that begins with a given character. -/
def SpendsAt (credit : Nat) (c : Char) (reader : Reader α) (cost : α → Nat) : Prop :=
  ∀ text value rest, reader (c :: text) = .ok (value, rest) →
    cost value + rest.length ≤ credit + (text.length + 1)

variable {credit : Nat} {cost : α → Nat} {reader : Reader α}

theorem spends_pure {value : α} (h : cost value ≤ credit) : Spends credit (pure value) cost := by
  intro text other rest hOther
  cases hOther
  omega

theorem spends_fail (credit : Nat) (fault : Fault) (cost : α → Nat) :
    Spends credit (fail fault) cost := by
  intro text value rest h
  cases h

theorem Spends.bind (h : Spends credit reader cost) {next : α → Reader β} {total : β → Nat}
    (hNext : ∀ value, Spends (cost value) (next value) total) :
    Spends credit (reader >>= next) total := by
  intro text result rest hResult
  obtain ⟨⟨value, between⟩, hValue, hRest⟩ := exists_of_bind_ok hResult
  exact Nat.le_trans (hNext value between result rest hRest) (h text value between hValue)

/-- More credit allows for more cost. -/
theorem Spends.add (h : Spends credit reader cost) (extra : Nat) :
    Spends (extra + credit) reader fun value => extra + cost value := by
  intro text value rest hValue
  have hSpent := h text value rest hValue
  simp only
  omega

theorem Spends.mono (h : Spends credit reader cost) {more : Nat} {less : α → Nat}
    (hCredit : credit ≤ more) (hCost : ∀ value, less value ≤ cost value) :
    Spends more reader less := by
  intro text value rest hValue
  have hSpent := h text value rest hValue
  have hLess := hCost value
  omega

theorem Spends.at (h : Spends credit reader cost) (c : Char) : SpendsAt credit c reader cost :=
  fun text value rest hValue => h (c :: text) value rest hValue

/-- A reader that never succeeds spends nothing. -/
theorem spends_of_yields (h : reader.Yields fun _ => False) (credit : Nat) (cost : α → Nat) :
    Spends credit reader cost :=
  fun text value rest hValue => (h text value rest hValue).elim

/-! ## The next character -/

theorem spends_peek {next : Char → Reader α} (atEnd : Fault)
    (h : ∀ c, SpendsAt credit c (next c) cost) : Spends credit (peek atEnd >>= next) cost := by
  intro text value rest hValue
  obtain ⟨⟨c, between⟩, hPeek, hNext⟩ := exists_of_bind_ok hValue
  have hDrop : (text.dropWhile isBlank).length ≤ text.length :=
    (List.dropWhile_sublist _).length_le
  unfold peek at hPeek
  split at hPeek
  · cases hPeek
  · rename_i d later hText
    cases hPeek
    have hSpent := h c later value rest hNext
    rw [hText, List.length_cons] at hDrop
    omega

/-- Passing over the next character gives credit. -/
theorem spendsAt_advance {next : Unit → Reader α} (c : Char)
    (h : Spends (credit + 1) (next ()) cost) : SpendsAt credit c (advance >>= next) cost := by
  intro text value rest hValue
  have hSpent := h text value rest hValue
  omega

theorem spends_word (letters : Text) : Spends 0 (word letters) fun _ => letters.length := by
  induction letters with
  | nil => exact spends_pure (Nat.le_refl 0)
  | cons c letters ih =>
    intro text value rest h
    cases text with
    | nil => cases h
    | cons d text =>
      simp only [word] at h
      split at h
      · have hSpent : letters.length + rest.length ≤ 0 + text.length := ih text value rest h
        simp only [List.length_cons]
        omega
      · cases h

theorem spends_advance : Spends 0 advance fun _ => 0 := by
  rintro text value rest ⟨⟩
  rw [List.length_tail, Nat.zero_add, Nat.zero_add]
  exact Nat.sub_le _ _

end Reader

open Reader

/-! ## Strings -/

theorem exists_of_prefix {c : Char} {inner : Except Fault (Text × Text)} {value rest : Text}
    (h : (do
      let (text, after) ← inner
      return (c :: text, after)) = Except.ok (value, rest)) :
    ∃ text, inner = .ok (text, rest) := by
  obtain ⟨⟨text, after⟩, hInner, hPure⟩ := exists_of_bind_ok h
  cases hPure
  exact ⟨text, hInner⟩

/-- A string ends with its first character, or it goes on behind it. -/
theorem exists_of_readStringFrom_cons {strict : Bool} {state : StringState} {c : Char}
    {text value rest : Text} (h : readStringFrom strict state (c :: text) = .ok (value, rest)) :
    rest = text ∨ ∃ next content, readStringFrom strict next text = .ok (content, rest) := by
  cases state with
  | plain =>
    rw [readStringFrom] at h
    split at h
    · cases h
      exact .inl rfl
    · split at h
      · exact .inr ⟨_, _, h⟩
      · split at h
        · cases h
        · exact .inr ⟨_, exists_of_prefix h⟩
  | slash =>
    rw [readStringFrom] at h
    split at h
    · split at h
      · cases h
      · exact .inr ⟨_, _, h⟩
    · split at h
      · cases h
      · exact .inr ⟨_, exists_of_prefix h⟩
  | unit held due leading =>
    rw [readStringFrom] at h
    split at h
    · cases h
    · simp only at h
      split at h
      · exact .inr ⟨_, _, h⟩
      · split at h
        · exact .inr ⟨_, _, h⟩
        · cases leading with
          | none =>
            simp only at h
            split at h
            · cases h
            · split at h
              · exact .inr ⟨_, _, h⟩
              · exact .inr ⟨_, exists_of_prefix h⟩
          | some lead =>
            simp only at h
            split at h
            · exact .inr ⟨_, exists_of_prefix h⟩
            · cases h
  | surrogate leading =>
    rw [readStringFrom] at h
    split at h
    · exact .inr ⟨_, _, h⟩
    · cases h
  | surrogateSlash leading =>
    rw [readStringFrom] at h
    split at h
    · split at h
      · cases h
      · exact .inr ⟨_, _, h⟩
    · cases h

theorem length_readStringFrom {strict : Bool} {state : StringState} {text value rest : Text}
    (h : readStringFrom strict state text = .ok (value, rest)) : rest.length < text.length := by
  induction text generalizing state value with
  | nil => cases state <;> cases h
  | cons c text ih =>
    rcases exists_of_readStringFrom_cons h with rfl | ⟨next, content, hNext⟩
    · exact Nat.lt_succ_self _
    · exact Nat.lt_succ_of_lt (ih hNext)

theorem spends_readString : Spends 0 readString fun _ => 1 := by
  intro text value rest h
  have hShorter := length_readStringFrom h
  simp only
  omega

theorem spends_skipString : Spends 0 skipString fun _ => 0 := by
  intro text value rest h
  obtain ⟨⟨content, between⟩, hContent, hPure⟩ := exists_of_bind_ok h
  cases hPure
  rw [Nat.zero_add, Nat.zero_add]
  exact Nat.le_of_lt (length_readStringFrom hContent)

/-! ## Numerals -/

theorem spends_readDigits (atEnd : Fault) : Spends 0 (readDigits atEnd) fun _ => 1 := by
  intro text digits rest h
  cases text with
  | nil => cases h
  | cons c text =>
    rw [readDigits] at h
    split at h
    · rename_i hDigit
      cases h
      rw [List.dropWhile_cons_of_pos hDigit, List.length_cons, Nat.zero_add, Nat.add_comm]
      exact Nat.succ_le_succ (List.dropWhile_sublist _).length_le
    · cases h

theorem length_readDigits {atEnd : Fault} {text digits rest : Text}
    (h : readDigits atEnd text = .ok (digits, rest)) : rest.length < text.length := by
  have hSpent := spends_readDigits atEnd text digits rest h
  rwa [Nat.zero_add, Nat.add_comm] at hSpent

theorem spends_readWhole (atEnd : Fault) : Spends 0 (readWhole atEnd) fun _ => 1 := by
  intro text digits rest h
  obtain ⟨⟨whole, between⟩, hDigits, hRest⟩ := exists_of_bind_ok h
  simp only at hRest
  split at hRest
  · cases hRest
  · cases hRest
    exact spends_readDigits atEnd text digits rest hDigits

theorem spends_readFraction (atEnd : Fault) : Spends 0 (readFraction atEnd) fun _ => 0 := by
  intro text fraction rest h
  unfold readFraction at h
  split at h
  · obtain ⟨⟨digits, between⟩, hDigits, hPure⟩ := exists_of_bind_ok h
    cases hPure
    rw [Nat.zero_add, Nat.zero_add]
    exact Nat.le_of_lt (Nat.lt_succ_of_lt (length_readDigits hDigits))
  · cases h
    exact Nat.le_refl _

theorem length_exponentSign (text : Text) : (exponentSign text).2.length ≤ text.length := by
  unfold exponentSign
  split
  · exact Nat.le_succ _
  · exact Nat.le_succ _
  · exact Nat.le_refl _

theorem spends_readExponent (atEnd : Fault) : Spends 0 (readExponent atEnd) fun _ => 0 := by
  intro text exponent rest h
  unfold readExponent at h
  split at h
  · split at h
    · rename_i c later _
      obtain ⟨⟨digits, between⟩, hDigits, hPure⟩ := exists_of_bind_ok h
      cases hPure
      have hSign := length_exponentSign later
      have hShorter : rest.length < (exponentSign later).2.length := length_readDigits hDigits
      rw [List.length_cons, Nat.zero_add, Nat.zero_add]
      omega
    · cases h
      exact Nat.le_refl _
  · cases h
    exact Nat.le_refl _

theorem spends_readNumeral (atEnd : Fault) : Spends 0 (readNumeral atEnd) fun _ => 1 := by
  refine (spends_readWhole atEnd).bind fun whole => ?_
  refine ((spends_readFraction atEnd).add 1).bind fun fraction => ?_
  refine ((spends_readExponent atEnd).add 1).bind fun exponent => ?_
  exact spends_pure (Nat.le_refl 1)

theorem spends_readNumber (negative : Bool) : Spends 0 (readNumber negative) fun _ => 1 := by
  refine (spends_readNumeral .endInValue).bind fun numeral => ?_
  split
  · exact spends_pure (Nat.le_refl 1)
  · exact spends_fail _ _ _

theorem spends_readAtom (c : Char) : Spends 0 (readAtom c) fun _ => 1 := by
  unfold readAtom
  split
  · exact spends_advance.bind fun _ => (spends_word _).bind fun _ => spends_pure (by decide)
  · split
    · exact spends_advance.bind fun _ => (spends_word _).bind fun _ => spends_pure (by decide)
    · split
      · exact spends_advance.bind fun _ => (spends_word _).bind fun _ => spends_pure (by decide)
      · split
        · exact spends_advance.bind fun _ => (spends_readNumber true).bind fun _ =>
            spends_pure (Nat.le_refl 1)
        · split
          · exact (spends_readNumber false).bind fun _ => spends_pure (Nat.le_refl 1)
          · split
            · exact spends_advance.bind fun _ => spends_readString.bind fun _ =>
                spends_pure (Nat.le_refl 1)
            · exact spends_fail _ _ _

theorem spends_unexpected (expected : Text) (credit : Nat) (cost : α → Nat) :
    Spends credit (unexpected expected) cost :=
  spends_of_yields (yields_unexpected expected _) credit cost

theorem spends_readText : Spends 0 readText fun _ => 0 := by
  refine spends_peek _ fun c => ?_
  split
  · refine spendsAt_advance c ?_
    exact spends_readString.mono (Nat.zero_le _) fun _ => Nat.zero_le _
  · exact (spends_unexpected _ 0 _).at c

/-! ## Lists and objects -/

theorem spends_nextItem (first : Bool) : Spends 0 (nextItem first) fun _ => 0 := by
  refine spends_peek _ fun c => ?_
  split
  · exact spendsAt_advance c (spends_pure (by decide))
  · split
    · exact (spends_pure (by decide)).at c
    · split
      · refine spendsAt_advance c (spends_peek _ fun d => ?_)
        split
        · exact (spends_fail _ _ _).at d
        · exact (spends_pure (by decide)).at d
      · exact (spends_fail _ _ _).at c

theorem spends_readItemsFrom {item : Reader α} {cost : α → Nat} (h : Spends 0 item cost)
    (bound : Nat) (first : Bool) :
    Spends 0 (readItemsFrom item bound first) fun values => (values.map cost).sum := by
  induction bound generalizing first with
  | zero => exact spends_fail _ _ _
  | succ bound ih =>
    refine (spends_nextItem first).bind fun more => ?_
    split
    · refine h.bind fun value => ?_
      refine ((ih false).add (cost value)).bind fun rest => spends_pure ?_
      exact Nat.le_of_eq List.sum_cons
    · exact spends_pure (Nat.le_refl 0)

theorem spends_readItems {item : Reader α} {cost : α → Nat} (h : Spends 0 item cost) :
    Spends 0 (readItems item) fun values => (values.map cost).sum :=
  fun text => spends_readItemsFrom h (text.length + 1) true text

theorem spends_nextKey (first : Bool) : Spends 0 (nextKey first) fun _ => 0 := by
  have hKey : Spends 0 (do return some (← readString) : Reader (Option Text)) fun _ => 0 :=
    spends_readString.bind fun _ => spends_pure (by decide)
  have hBehind (c : Char) : SpendsAt 0 c (do
      Reader.advance
      return some (← readString) : Reader (Option Text)) fun _ => 0 :=
    spendsAt_advance c (hKey.mono (Nat.zero_le _) fun _ => Nat.le_refl 0)
  refine spends_peek _ fun c => ?_
  split
  · exact spendsAt_advance c (spends_pure (by decide))
  · split
    · split
      · exact hBehind c
      · exact (spends_fail _ _ _).at c
    · split
      · refine spendsAt_advance c ((spends_peek _ fun d => ?_).mono (Nat.zero_le _) fun _ =>
          Nat.le_refl 0)
        split
        · exact hBehind d
        · split
          · exact (spends_fail _ _ _).at d
          · exact (spends_fail _ _ _).at d
      · exact (spends_fail _ _ _).at c

theorem spends_readColon : Spends 0 readColon fun _ => 0 := by
  refine spends_peek _ fun c => ?_
  split
  · exact (spends_advance.at c)
  · exact (spends_fail _ _ _).at c

theorem spends_readMembersFrom {item : Reader α} (h : Spends 0 item fun _ => 0) (bound : Nat)
    (first : Bool) : Spends 0 (readMembersFrom item bound first) fun _ => 0 := by
  induction bound generalizing first with
  | zero => exact spends_fail _ _ _
  | succ bound ih =>
    refine (spends_nextKey first).bind fun key? => ?_
    cases key? with
    | none => exact spends_pure (by decide)
    | some key =>
      refine spends_readColon.bind fun _ => h.bind fun value => (ih false).bind fun rest => ?_
      exact spends_pure (by decide)

theorem spends_readMembers {item : Reader α} (h : Spends 0 item fun _ => 0) :
    Spends 0 (readMembers item) fun _ => 0 :=
  fun text => spends_readMembersFrom h (text.length + 1) true text

/-- A list costs what its items do. -/
theorem spends_readList {item? : Option (Reader α)} {cost : α → Nat}
    (h : ∀ item ∈ item?, Spends 0 item cost) :
    Spends 0 (readList item?) fun values => (values.map cost).sum := by
  refine spends_peek _ fun c => ?_
  split
  · cases item? with
    | none => exact (spends_fail _ _ _).at c
    | some item =>
      refine spendsAt_advance c ?_
      exact (spends_readItems (h item rfl)).mono (Nat.zero_le _) fun _ => Nat.le_refl _
  · exact (spends_unexpected _ 0 _).at c

/-- A value costs a character. -/
theorem spends_readValue (room : Nat) : Spends 0 (readValue room) fun _ => 1 := by
  induction room with
  | zero =>
    refine spends_peek _ fun c => ?_
    split
    · exact (spends_fail _ _ _).at c
    · exact (spends_readAtom c).at c
  | succ room ih =>
    have hFree : Spends 0 (readValue room) fun _ => 0 :=
      ih.mono (Nat.le_refl 0) fun _ => Nat.zero_le 1
    refine spends_peek _ fun c => ?_
    split
    · refine spendsAt_advance c ?_
      exact ((spends_readItems ih).add 1).bind fun items => spends_pure (Nat.le_add_right 1 _)
    · split
      · refine spendsAt_advance c ?_
        exact ((spends_readMembers hFree).add 1).bind fun entries => spends_pure (by decide)
      · exact (spends_readAtom c).at c

/-! ## Values that are passed over -/

theorem spends_skipAtom (c : Char) : Spends 0 (skipAtom c) fun _ => 0 := by
  have hNumeral : Spends 0 skipNumeral fun _ => 0 :=
    (spends_readNumeral _).bind fun _ => spends_pure (by decide)
  unfold skipAtom
  split
  · exact spends_advance.bind fun _ => hNumeral
  · split
    · exact hNumeral
    · split
      · exact spends_advance.bind fun _ => spends_skipString
      · exact (spends_readAtom c).bind fun _ => spends_pure (by decide)

theorem spends_skipKey : Spends 0 skipKey fun _ => 0 := by
  refine spends_peek _ fun c => ?_
  split
  · exact (spends_advance.bind fun _ => spends_skipString.bind fun _ => spends_readColon).at c
  · exact (spends_fail _ _ _).at c

theorem spends_skipDue (bound : Nat) (due : Due) (frames : List Frame) :
    Spends 0 (skipDue bound due frames) fun _ => 0 := by
  induction bound generalizing due frames with
  | zero => exact spends_fail _ _ _
  | succ bound ih =>
    have hFrames : due ≠ .value → Spends 0 (skipDue (bound + 1) due frames) fun _ => 0 := by
      intro hDue
      cases frames with
      | nil =>
        cases due with
        | value => exact absurd rfl hDue
        | first => exact spends_pure (by decide)
        | next => exact spends_pure (by decide)
      | cons frame frames =>
        rw [skipDue]
        · refine spends_peek _ fun c => ?_
          split
          · exact (spends_advance.bind fun _ => ih .next frames).at c
          · split
            · have hKey : Spends 0 (do
                  if frame = .object then skipKey
                  skipDue bound .value (frame :: frames)) fun _ => 0 := by
                simp only
                split
                · exact spends_skipKey.bind fun _ => ih .value (frame :: frames)
                · exact ih .value (frame :: frames)
              simp only
              split
              · exact (spends_advance.bind fun _ => hKey).at c
              · exact hKey.at c
            · exact (spends_fail _ _ _).at c
        · exact hDue
    cases due with
    | value =>
      rw [skipDue]
      refine spends_peek _ fun c => ?_
      split
      · exact (spends_advance.bind fun _ => ih .first (.list :: frames)).at c
      · split
        · exact (spends_advance.bind fun _ => ih .first (.object :: frames)).at c
        · exact ((spends_skipAtom c).bind fun _ => ih .next frames).at c
    | first => exact hFrames nofun
    | next => exact hFrames nofun

theorem spends_skipValue : Spends 0 skipValue fun _ => 0 :=
  fun text => spends_skipDue (2 * text.length + 2) .value [] text

/-! ## Records -/

/-- Reading a field costs what it adds to the cost of the record. -/
def Record.Spends (record : Record Reader α) (cost : α → Nat) : Prop :=
  ∀ field ∈ record.fields, ∀ value,
    Reader.Spends (cost value) field.read fun change => cost (change value)

namespace Record

variable {record : Record Reader α} {cost : α → Nat}

theorem Spends.readFieldsFrom (h : record.Spends cost) (bound : Nat) (first : Bool)
    (seen : List Text) (value : α) :
    Reader.Spends (cost value) (readFieldsFrom record bound first seen value) cost := by
  have hFree {β : Type} {reader : Reader β} (hReader : Reader.Spends 0 reader fun _ => 0)
      (value : α) : Reader.Spends (cost value) reader fun _ => cost value :=
    hReader.add (cost value)
  induction bound generalizing first seen value with
  | zero => exact spends_fail _ _ _
  | succ bound ih =>
    refine (hFree (spends_nextKey first) value).bind fun key? => ?_
    cases key? with
    | none =>
      intro text result rest hResult
      obtain ⟨other, hOther, hPure⟩ := exists_of_bind_ok hResult
      cases hPure
      unfold Record.complete at hOther
      split at hOther
      · cases hOther
      · cases hOther
        exact Nat.le_refl _
    | some key =>
      cases hField : record.field? key with
      | none =>
        simp only [hField]
        exact (hFree spends_readColon value).bind fun _ =>
          (hFree spends_skipValue value).bind fun _ => ih false seen value
      | some field =>
        simp only [hField]
        split
        · exact spends_fail _ _ _
        · refine (hFree spends_readColon value).bind fun _ => ?_
          refine (h field (mem_of_field? hField) value).bind fun change => ?_
          exact ih false (key :: seen) (change value)

theorem spends_readListEnd : Reader.Spends 0 readListEnd fun _ => 0 := by
  refine spends_peek _ fun c => ?_
  split
  · exact spends_advance.at c
  · split
    · refine (spends_advance.bind fun _ => ?_).at c
      intro text value rest hValue
      simp only at hValue
      split at hValue <;> cases hValue
    · exact (spends_fail _ _ _).at c

theorem Spends.readFieldItems (h : record.Spends cost) {fields : List (Field Reader α)}
    (hFields : fields ⊆ record.fields) (index : Nat) (value : α) :
    Reader.Spends (cost value) (readFieldItems record fields index value) cost := by
  induction fields generalizing index value with
  | nil =>
    exact (spends_readListEnd.add (cost value)).bind fun _ => spends_pure (Nat.le_refl _)
  | cons field rest ih =>
    obtain ⟨hField, hRest⟩ := List.cons_subset.mp hFields
    refine ((spends_nextItem (index = 0)).add (cost value)).bind fun more => ?_
    split
    · exact (h field hField value).bind fun change => ih hRest (index + 1) (change value)
    · split
      · exact spends_fail _ _ _
      · exact spends_pure (Nat.le_refl _)

end Record

/-- A record costs what its fields add to it, in both forms. -/
theorem spends_readRecord (name : Text) {record? : Option (Record Reader α)} {cost : α → Nat}
    (h : ∀ record ∈ record?, record.Spends cost ∧ cost record.blank = 0) :
    Spends 0 (readRecord name record?) cost := by
  refine spends_peek _ fun c => ?_
  split
  · cases record? with
    | none => exact (spends_fail _ _ _).at c
    | some record =>
      obtain ⟨hSpends, hBlank⟩ := h record rfl
      have hItems := hSpends.readFieldItems (List.Subset.refl _) 0 record.blank
      rw [hBlank] at hItems
      exact (spends_advance.bind fun _ => hItems).at c
  · split
    · cases record? with
      | none => exact (spends_fail _ _ _).at c
      | some record =>
        obtain ⟨hSpends, hBlank⟩ := h record rfl
        have hFields (bound : Nat) := hSpends.readFieldsFrom bound true [] record.blank
        rw [hBlank] at hFields
        exact (spends_advance.bind fun _ text => hFields (text.length + 1) text).at c
    · exact (spends_unexpected _ 0 _).at c

end Formulary.Json
