import Formulary.Json.Record
import Formulary.Proofs.Json.Lexeme

/-!
# Reading compact text

`Takes` says that a reader takes a value from the front of a text: it leaves the rest, and the rest
is shorter. Lists and records are read under a bound on the number of their items; `Ends` says that
every bound that exceeds the length of the text is enough. A list, or the members of an object, end
by one step for each item that is printed without blanks:

* `ends_items` and `ends_items_cons`: the end of a list, and an item;
* `ends_members` and `ends_members_cons`: the end of an object, and a member;
* `ends_fields`, `ends_fields_cons` and `ends_fields_optional`: the end of a record, the member of
  a field, and a member that may be left out.
-/

namespace Formulary.Json

variable {α β : Type}

/-- A reader takes a value from the front of a text and leaves a shorter rest. -/
structure Reader.Takes (reader : Reader α) (text : Text) (value : α) (rest : Text) : Prop where
  reads : reader text = .ok (value, rest)
  shorter : rest.length < text.length

/-- A reading under a bound takes a value whenever the bound exceeds the length of the text. -/
def Reader.Ends (reader : Nat → Reader α) (text : Text) (value : α) (rest : Text) : Prop :=
  ∀ bound, text.length < bound → (reader bound).Takes text value rest

open Reader

namespace Reader

variable {reader : Reader α} {text rest : Text} {value : α}

/-- The bound is not used up in the first step. -/
theorem Ends.of_succ {reader : Nat → Reader α}
    (h : ∀ bound, text.length ≤ bound → (reader (bound + 1)).Takes text value rest) :
    Ends reader text value rest := by
  intro bound hBound
  obtain ⟨bound, rfl⟩ := Nat.exists_eq_add_one_of_ne_zero (Nat.ne_zero_of_lt hBound)
  exact h bound (Nat.le_of_lt_succ hBound)

theorem Takes.map (h : reader.Takes text value rest) (f : α → β) :
    Takes (do return f (← reader)) text (f value) rest where
  reads := bind_of_ok h.reads _
  shorter := h.shorter

theorem takes_printString (text after : Text) :
    readText.Takes (printString text ++ after) text after where
  reads := readText_printString text after
  shorter := by
    rw [printString_append, List.length_cons, List.length_append, List.length_cons]
    omega

end Reader

/-! ## Lists -/

section

variable {item : Reader α} {first : Bool} {text between rest after : Text} {value : α}
  {values : List α}

theorem nextItem_first {c : Char} (hBlank : isBlank c = false) (hc : c ≠ ']') (rest : Text) :
    nextItem true (c :: rest) = .ok (true, c :: rest) := by
  rw [nextItem, bind_of_ok (peek_cons hBlank _ _), if_neg hc]
  rfl

theorem nextItem_comma {c : Char} (hBlank : isBlank c = false) (hc : c ≠ ']') (rest : Text) :
    nextItem false (',' :: c :: rest) = .ok (true, c :: rest) := by
  rw [nextItem, bind_of_ok (peek_cons (by decide) _ _), if_neg (by decide),
    if_neg Bool.false_ne_true, if_pos rfl, bind_of_ok (advance_cons _ _),
    bind_of_ok (peek_cons hBlank _ _), if_neg hc]
  rfl

theorem nextItem_end (first : Bool) (rest : Text) :
    nextItem first (']' :: rest) = .ok (false, rest) := by
  rw [nextItem, bind_of_ok (peek_cons (by decide) _ _), if_pos rfl, bind_of_ok (advance_cons _ _)]
  rfl

theorem ends_items (item : Reader α) (first : Bool) (rest : Text) :
    Ends (readItemsFrom item · first) (']' :: rest) [] rest := by
  refine Ends.of_succ fun bound _ => ⟨?_, Nat.lt_succ_self _⟩
  rw [readItemsFrom, bind_of_ok (nextItem_end first rest), if_neg Bool.false_ne_true]
  rfl

theorem ends_items_cons (hNext : nextItem first text = .ok (true, between))
    (hBetween : between.length ≤ text.length) (hItem : item.Takes between value rest)
    (hRest : Ends (readItemsFrom item · false) rest values after) :
    Ends (readItemsFrom item · first) text (value :: values) after := by
  refine Ends.of_succ fun bound hBound => ?_
  have hItemShorter := hItem.shorter
  obtain ⟨hReads, hShorter⟩ := hRest bound (by omega)
  refine ⟨?_, by omega⟩
  rw [readItemsFrom, bind_of_ok hNext, if_pos rfl, bind_of_ok hItem.reads, bind_of_ok hReads]
  rfl

theorem takes_list (h : Ends (readItemsFrom item · true) text values rest) :
    (readList (some item)).Takes ('[' :: text) values rest := by
  obtain ⟨hReads, hShorter⟩ := h (text.length + 1) (Nat.lt_succ_self _)
  refine ⟨?_, Nat.lt_succ_of_lt hShorter⟩
  rw [readList, bind_of_ok (peek_cons (by decide) _ _), if_pos rfl, bind_of_ok (advance_cons _ _)]
  exact hReads

end

/-! ## Records -/

section

variable {record : Record Reader α} {first : Bool} {seen : List Text} {text between rest : Text}
  {key : Text} {value result : α}

theorem nextKey_first (key rest : Text) :
    nextKey true (printString key ++ rest) = .ok (some key, rest) := by
  rw [printString_append, nextKey, bind_of_ok (peek_cons (by decide) _ _), if_neg (by decide),
    if_pos rfl, if_pos rfl, bind_of_ok (advance_cons _ _),
    bind_of_ok (readString_flatMap key rest)]
  rfl

theorem nextKey_comma (key rest : Text) :
    nextKey false (',' :: (printString key ++ rest)) = .ok (some key, rest) := by
  rw [printString_append, nextKey, bind_of_ok (peek_cons (by decide) _ _), if_neg (by decide),
    if_neg Bool.false_ne_true, if_pos rfl, bind_of_ok (advance_cons _ _),
    bind_of_ok (peek_cons (by decide) _ _), if_pos rfl, bind_of_ok (advance_cons _ _),
    bind_of_ok (readString_flatMap key rest)]
  rfl

theorem nextKey_end (first : Bool) (rest : Text) :
    nextKey first ('\x7d' :: rest) = .ok (none, rest) := by
  rw [nextKey, bind_of_ok (peek_cons (by decide) _ _), if_pos rfl, bind_of_ok (advance_cons _ _)]
  rfl

theorem length_le_member (key between : Text) :
    between.length ≤ (printString key ++ ':' :: between).length := by
  rw [List.length_append, List.length_cons]
  omega

theorem readColon_cons (rest : Text) : readColon (':' :: rest) = .ok ((), rest) := by
  rw [readColon, bind_of_ok (peek_cons (by decide) _ _), if_pos rfl]
  rfl

theorem ends_members (item : Reader α) (first : Bool) (rest : Text) :
    Ends (readMembersFrom item · first) ('\x7d' :: rest) [] rest := by
  refine Ends.of_succ fun bound _ => ⟨?_, Nat.lt_succ_self _⟩
  rw [readMembersFrom, bind_of_ok (nextKey_end first rest)]
  rfl

theorem ends_members_cons {item : Reader α} {members : List (Text × α)} {after : Text}
    (hNext : nextKey first text = .ok (some key, ':' :: between))
    (hBetween : between.length ≤ text.length) (hItem : item.Takes between value rest)
    (hRest : Ends (readMembersFrom item · false) rest members after) :
    Ends (readMembersFrom item · first) text ((key, value) :: members) after := by
  refine Ends.of_succ fun bound hBound => ?_
  have hItemShorter := hItem.shorter
  obtain ⟨hReads, hShorter⟩ := hRest bound (by omega)
  refine ⟨?_, by omega⟩
  rw [readMembersFrom, bind_of_ok hNext]
  simp only
  rw [bind_of_ok (readColon_cons between), bind_of_ok hItem.reads, bind_of_ok hReads]
  rfl

theorem ends_fields (h : record.missing? seen = none) (first : Bool) (value : α) (rest : Text) :
    Ends (readFieldsFrom record · first seen value) ('\x7d' :: rest) value rest := by
  refine Ends.of_succ fun bound _ => ⟨?_, Nat.lt_succ_self _⟩
  rw [readFieldsFrom, bind_of_ok (nextKey_end first rest)]
  simp only [Record.complete, h]
  rfl

theorem ends_fields_cons {field : Field Reader α} {change : α → α} {later after : Text}
    (hNext : nextKey first text = .ok (some key, ':' :: between))
    (hBetween : between.length ≤ text.length) (hField : record.field? key = some field)
    (hSeen : key ∉ seen) (hRead : field.read.Takes between change later)
    (hRest : Ends (readFieldsFrom record · false (key :: seen) (change value)) later result after) :
    Ends (readFieldsFrom record · first seen value) text result after := by
  refine Ends.of_succ fun bound hBound => ?_
  have hReadShorter := hRead.shorter
  obtain ⟨hReads, hShorter⟩ := hRest bound (by omega)
  refine ⟨?_, by omega⟩
  rw [readFieldsFrom, bind_of_ok hNext]
  simp only [hField, List.contains_eq_mem, hSeen, decide_false, Bool.false_eq_true, if_false]
  rw [bind_of_ok (readColon_cons between), bind_of_ok hRead.reads]
  exact hReads

/-- The member of a field that is left out when it is blank. The keys that are seen behind it differ
from those before it by its own key at most. -/
theorem ends_fields_optional (key : Text) {reader : Reader β} {change : β → α → α}
    {read blank : β} {field : Field Reader α} {later after : Text}
    (hField : record.field? key = some field) (hRead : field.read = do return change (← reader))
    (hBlank : change blank value = value) (hSeen : key ∉ seen)
    (hText : text = later ∧ read = blank ∨
      ∃ printed, text = ',' :: (printString key ++ ':' :: printed) ∧
        reader.Takes printed read later)
    (hRest : ∀ keys, (∀ other, other ≠ key → (other ∈ keys ↔ other ∈ seen)) →
      Ends (readFieldsFrom record · false keys (change read value)) later result after) :
    Ends (readFieldsFrom record · false seen value) text result after := by
  rcases hText with ⟨rfl, rfl⟩ | ⟨printed, rfl, hTakes⟩
  · have hLater := hRest seen fun _ _ => Iff.rfl
    rwa [hBlank] at hLater
  · have hLater := hRest (key :: seen) fun other hOther => by simp [hOther]
    exact ends_fields_cons (nextKey_comma key _) (Nat.le_succ_of_le (length_le_member key printed))
      hField hSeen (hRead ▸ hTakes.map change) hLater

theorem takes_record (name : Text)
    (h : Ends (readFieldsFrom record · true [] record.blank) text value rest) :
    (readRecord name (some record)).Takes ('\x7b' :: text) value rest := by
  obtain ⟨hReads, hShorter⟩ := h (text.length + 1) (Nat.lt_succ_self _)
  refine ⟨?_, Nat.lt_succ_of_lt hShorter⟩
  rw [readRecord, bind_of_ok (peek_cons (by decide) _ _), if_neg (by decide), if_pos rfl,
    bind_of_ok (advance_cons _ _)]
  exact hReads

end

end Formulary.Json
