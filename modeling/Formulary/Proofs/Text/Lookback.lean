import Formulary.Markup.Delimiter
import Formulary.Proofs.Text.Escape

/-!
# Looking back for backslashes

Markup is read from the left: a backslash consumes the character behind it, and a backslash that is
consumed itself consumes nothing (`consumed`). What this reading says about one character can be
told from the text right before it. `escapedAt` counts the backslashes there, and `commandBefore`
looks for the letters of a name and then for a backslash that is not escaped.

* `consumed_eq`: the marks of a text read it in the same way;
* `commandBefore_iff`, `readsCommand_iff`: looking back for a command and reading one both tell the
  lead of a character;
* `lookback_eq_reading`: so they agree, for escapes and for commands before delimiters.
-/

namespace Formulary

open Text

/-! ## Reading and looking back -/

/-- For each character of a text, whether the backslash before it consumes it. -/
def consumed : Text → List Bool
  | [] => []
  | '\\' :: _ :: rest => false :: true :: consumed rest
  | _ :: rest => false :: consumed rest

/-- An odd number of backslashes stands right before a place. -/
def escapedAt (text : Text) (place : Nat) : Bool := slashRun (text.take place) % 2 = 1

/-- Right before a place stands the name, and right before the name a backslash that is not
escaped. -/
def commandBefore (text : Text) (place : Nat) (name : Text) : Bool :=
  name.isSuffixOf (text.take place) && ['\\'].isSuffixOf (text.take (place - name.length)) &&
    !escapedAt text (place - name.length - 1)

/-- The reading has the control word that ends right before a place: the longest run of letters
behind a backslash that is not consumed. -/
def ReadsCommand (text : Text) (place : Nat) (name : Text) : Prop :=
  ∃ start, text[start]? = some '\\' ∧ (consumed text)[start]? = some false ∧
    (text.drop (start + 1)).takeWhile Char.isAlpha = name ∧ place = start + 1 + name.length

/-! ## Leads -/

section Leads

variable {text name : Text} {place : Nat} {c : Char}

theorem getElem?_marksFrom (lead : Lead) (text : Text) (place : Nat) :
    (marksFrom lead text)[place]? =
      (text[place]?).map fun c => ⟨lead.through (text.take place), c⟩ := by
  induction text generalizing lead place with
  | nil => rfl
  | cons c rest ih =>
    cases place with
    | zero => rfl
    | succ place =>
      rw [marksFrom, List.getElem?_cons_succ, List.getElem?_cons_succ, ih, List.take_succ_cons]
      rfl

theorem consumed_eq (text : Text) : consumed text = (marks text).map Mark.escaped := by
  have hFrom : ∀ lead : Lead, lead ≠ .slash →
      consumed text = (marksFrom lead text).map Mark.escaped := by
    fun_induction consumed text with
    | case1 => exact fun _ _ => rfl
    | case2 c rest ih =>
      intro lead hLead
      have hSlash : lead.after '\\' = .slash := after_eq_slash.mpr ⟨rfl, hLead⟩
      have hNext : Lead.slash.after c ≠ .slash := fun hEq => (after_eq_slash.mp hEq).2 rfl
      rw [marksFrom, marksFrom, hSlash, List.map_cons, List.map_cons, ← ih _ hNext]
      simp [Mark.escaped, hLead]
    | case3 c rest hLast ih =>
      intro lead hLead
      rw [marksFrom, List.map_cons]
      have hHere : Mark.escaped ⟨lead, c⟩ = false := decide_eq_false hLead
      rw [hHere]
      cases rest with
      | nil => rfl
      | cons d rest =>
        have hNext : lead.after c ≠ .slash := fun hEq =>
          hLast d rest (after_eq_slash.mp hEq).1 rfl
        rw [← ih _ hNext]
  exact hFrom .plain (by decide)

theorem getElem?_consumed (h : text[place]? = some c) :
    (consumed text)[place]? = some (decide (Lead.plain.through (text.take place) = .slash)) := by
  rw [consumed_eq, List.getElem?_map, marks, getElem?_marksFrom, h]
  rfl

theorem escapedAt_iff :
    escapedAt text place ↔ Lead.plain.through (text.take place) = .slash := by
  rw [through_eq_slash_iff, Nat.not_even_iff, escapedAt, decide_eq_true_iff]

/-- Looking back for a command tells whether the reading stands behind its letters. -/
theorem commandBefore_iff (hPlace : place ≤ text.length) (hNe : name ≠ [])
    (hAlpha : ∀ d ∈ name, d.isAlpha) :
    commandBefore text place name ↔ Lead.plain.through (text.take place) = .word name := by
  obtain ⟨front, back, rfl, rfl⟩ : ∃ front back, text = front ++ back ∧ place = front.length :=
    ⟨text.take place, text.drop place, (List.take_append_drop ..).symm, by simp [hPlace]⟩
  rw [through_eq_word, List.take_left, commandBefore, List.take_left, Bool.and_eq_true,
    Bool.and_eq_true, List.isSuffixOf_iff_suffix, List.isSuffixOf_iff_suffix, Bool.not_eq_true',
    ← Bool.not_eq_true, escapedAt_iff]
  constructor
  · rintro ⟨⟨⟨outer, rfl⟩, hSlash⟩, hBare⟩
    have hOuter : (outer ++ name).length - name.length = outer.length := by simp
    rw [hOuter, List.append_assoc, List.take_left] at hSlash
    obtain ⟨before, rfl⟩ := hSlash
    have hBefore : (before ++ ['\\'] ++ name).length - name.length - 1 = before.length := by
      rw [hOuter, List.length_append, List.length_singleton, Nat.add_sub_cancel]
    rw [hBefore, List.append_assoc, List.append_assoc, List.take_left] at hBare
    exact ⟨before, by simp, hBare, hNe, hAlpha⟩
  · rintro ⟨before, rfl, hBare, -, -⟩
    have hOuter : (before ++ '\\' :: name).length - name.length = (before ++ ['\\']).length := by
      simp only [List.length_append, List.length_cons, List.length_nil]
      omega
    have hWhole : before ++ '\\' :: name ++ back = before ++ ['\\'] ++ (name ++ back) := by simp
    refine ⟨⟨⟨before ++ ['\\'], by simp⟩, ?_⟩, ?_⟩
    · rw [hOuter, hWhole, List.take_left]
      exact ⟨before, rfl⟩
    · rw [hOuter, List.length_append, List.length_singleton, Nat.add_sub_cancel, List.append_assoc,
        List.take_left]
      exact hBare

/-- Before a character that is no letter, the reading stands behind the letters of a control word
when it has that word. -/
theorem readsCommand_iff (hPlace : text[place]? = some c) (hEnd : c.isAlpha = false)
    (hNe : name ≠ []) :
    ReadsCommand text place name ↔ Lead.plain.through (text.take place) = .word name := by
  rw [through_eq_word]
  constructor
  · rintro ⟨start, hSlash, hBare, hName, rfl⟩
    rw [getElem?_consumed hSlash, Option.some.injEq, decide_eq_false_iff_not] at hBare
    have hWord : (text.drop (start + 1)).take name.length = name := by
      rw [← hName]
      exact (List.prefix_iff_eq_take.mp (List.takeWhile_prefix _)).symm
    refine ⟨text.take start, ?_, hBare, hNe, fun d hd => ?_⟩
    · rw [List.take_add, List.take_add_one, hSlash, hWord, Option.toList_some, List.append_assoc,
        List.singleton_append]
    · rw [← hName] at hd
      exact List.mem_takeWhile_imp hd
  · rintro ⟨before, hFront, hBare, -, hAlpha⟩
    obtain ⟨hLess, hChar⟩ := List.getElem?_eq_some_iff.mp hPlace
    obtain ⟨back, hBack⟩ : ∃ back, text.drop place = c :: back :=
      ⟨_, by rw [List.drop_eq_getElem_cons hLess, hChar]⟩
    have hText : text = before ++ '\\' :: (name ++ c :: back) := by
      rw [← List.take_append_drop place text, hFront, hBack, List.append_assoc, List.cons_append]
    have hStart : text[before.length]? = some '\\' := by
      rw [hText, List.getElem?_append_right (Nat.le_refl _), Nat.sub_self]
      rfl
    have hBefore : text.take before.length = before := by rw [hText, List.take_left]
    refine ⟨before.length, hStart, ?_, ?_, ?_⟩
    · rw [getElem?_consumed hStart, hBefore, decide_eq_false hBare]
    · rw [hText, ← List.drop_drop, List.drop_left, List.drop_one, List.tail_cons,
        List.takeWhile_append_of_pos hAlpha, List.takeWhile_cons_of_neg (by simp [hEnd]),
        List.append_nil]
    · have hTake := congrArg List.length hFront
      rw [List.length_take_of_le (Nat.le_of_lt hLess), List.length_append,
        List.length_cons] at hTake
      omega

end Leads

/-! ## Looking back as reading -/

/-- Looking back agrees with reading from the left. A character has an odd number of backslashes
right before it when the reading has it consumed, and a name stands right before a delimiter as a
command when the reading has it as a control word there. The marks of a text say the same. -/
theorem lookback_eq_reading (text : Text) :
    (∀ place < text.length, escapedAt text place ↔ (consumed text)[place]? = some true) ∧
    (∀ place c name, text[place]? = some c → c = '(' ∨ c = ')' ∨ c = '|' → name ≠ [] →
      (∀ d ∈ name, d.isAlpha) → (commandBefore text place name ↔ ReadsCommand text place name)) ∧
    ∀ place mark, (marks text)[place]? = some mark →
      mark.escaped = escapedAt text place ∧ ∀ name, name ≠ [] → (∀ d ∈ name, d.isAlpha) →
        Delimiter.follows mark name = commandBefore text place name := by
  refine ⟨fun place hPlace => ?_, fun place c name hPlace hChar hNe hAlpha => ?_,
    fun place mark hMark => ?_⟩
  · rw [getElem?_consumed (List.getElem?_eq_getElem hPlace), escapedAt_iff, Option.some.injEq,
      decide_eq_true_iff]
  · have hEnd : c.isAlpha = false := by rcases hChar with rfl | rfl | rfl <;> decide
    have hLess : place < text.length := (List.getElem?_eq_some_iff.mp hPlace).1
    rw [commandBefore_iff (Nat.le_of_lt hLess) hNe hAlpha, readsCommand_iff hPlace hEnd hNe]
  · rw [marks, getElem?_marksFrom] at hMark
    obtain ⟨c, hPlace, rfl⟩ := Option.map_eq_some_iff.mp hMark
    have hLess : place < text.length := (List.getElem?_eq_some_iff.mp hPlace).1
    refine ⟨Bool.eq_iff_iff.mpr ?_, fun name hNe hAlpha => Bool.eq_iff_iff.mpr ?_⟩
    · rw [escapedAt_iff, Mark.escaped, decide_eq_true_iff]
    · rw [commandBefore_iff (Nat.le_of_lt hLess) hNe hAlpha, Delimiter.follows, decide_eq_true_iff]

/-- The letters `left` behind a row break, the command `\left` behind a row break, and an escaped
pipe. -/
def breaksText : Text := "\\\\left(\\\\\\left)\\|".toList

theorem lookback_breaksText :
    ¬ ReadsCommand breaksText 6 "left".toList ∧ ReadsCommand breaksText 14 "left".toList ∧
      (consumed breaksText)[16]? = some true := by
  obtain ⟨hEscaped, hCommand, -⟩ := lookback_eq_reading breaksText
  have hAlpha : ∀ d ∈ "left".toList, d.isAlpha := List.all_eq_true.mp (by decide)
  refine ⟨?_, ?_, (hEscaped 16 (by decide)).mp (by decide)⟩
  · exact mt (hCommand 6 '(' _ rfl (.inl rfl) (by decide) hAlpha).mpr (by decide)
  · exact (hCommand 14 ')' _ rfl (.inr (.inl rfl)) (by decide) hAlpha).mp (by decide)

end Formulary
