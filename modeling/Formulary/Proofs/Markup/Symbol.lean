import Formulary.Markup.Symbol
import Formulary.Proofs.Text.Search
import Mathlib.Data.Bool.AllAny
import Mathlib.Data.List.Basic

/-!
# Glyph substitution, character by character

`Symbol.substitute` passes over `\frac` at once. `substitute_cons` restates it as a scan that
writes one character at a time and looks ahead from a backslash: a `d` is put behind it when the
rest completes `\frac` and display fractions are asked for.

`IsFractionAt` tells from the text alone where a `d` goes, and `substitute_scan` says what
substitution does at every place of every text.
-/

namespace Formulary.Symbol

/-- The text behind a backslash completes the command `\frac`. -/
def completesFraction (text : Text) : Bool :=
  "frac".toList.isPrefixOf text && wordEnds (text.drop 4)

/-- The `d` that is put behind a character, before the rest of the text. -/
def promotion (display : Bool) (c : Char) (rest : Text) : Text :=
  if display && c = '\\' && completesFraction rest then ['d'] else []

theorem spell_of_none {c : Char} (h : command? c = none) : spell c = [c] := by
  rw [spell, h]
  rfl

theorem mem_of_command? {c : Char} {command : Text} (h : command? c = some command) :
    (c, command) ∈ commands := by
  obtain ⟨before, after, hEq, -⟩ := List.lookup_eq_some_iff.mp h
  simp [hEq]

/-- The command of a glyph is a backslash and a name in ASCII, which does not begin like `frac`. -/
theorem exists_of_command? {c : Char} {command : Text} (h : command? c = some command) :
    ∃ d name, command = '\\' :: d :: name ∧ d ≠ 'f' ∧
      ∀ e ∈ d :: name, e.toNat < 128 ∧ e ≠ '\\' := by
  have hAll : ∀ entry ∈ commands, entry.2.head? = some '\\' ∧ entry.2.tail.head? ≠ none ∧
      entry.2.tail.head? ≠ some 'f' ∧
        entry.2.tail.all fun e => decide (e.toNat < 128 ∧ e ≠ '\\') := by decide
  obtain ⟨hHead, hNone, hLetter, hAscii⟩ := hAll _ (mem_of_command? h)
  have hName := List.all_iff_forall_prop.mp hAscii
  match command, hHead, hNone, hLetter, hName with
  | _ :: d :: name, rfl, _, hLetter, hName =>
    exact ⟨d, name, rfl, fun hd => hLetter (hd ▸ rfl), hName⟩

theorem command?_ascii {c : Char} (h : c.toNat < 128) : command? c = none := by
  have hAll : ∀ entry ∈ commands, 128 ≤ entry.1.toNat := by decide
  rw [Option.eq_none_iff_forall_ne_some]
  intro command hCommand
  have hGlyph : 128 ≤ c.toNat := hAll _ (mem_of_command? hCommand)
  omega

theorem spell_ascii {c : Char} (h : c.toNat < 128) : spell c = [c] :=
  spell_of_none (command?_ascii h)

theorem substitute_ascii {c : Char} (display : Bool) (h : c.toNat < 128) (hc : c ≠ '\\')
    (rest : Text) : substitute display (c :: rest) = c :: substitute display rest := by
  rw [substitute, spell_ascii h]
  · rfl
  · rintro _ rfl -
    exact hc rfl

/-- Glyphs are written one by one, and a `d` is put behind the backslash of a fraction. -/
theorem substitute_cons (display : Bool) (c : Char) (rest : Text) :
    substitute display (c :: rest) =
      spell c ++ (promotion display c rest ++ substitute display rest) := by
  by_cases hWord : c = '\\' ∧ "frac".toList.isPrefixOf rest
  · obtain ⟨rfl, hFrac⟩ := hWord
    obtain ⟨after, rfl⟩ := Text.exists_of_isPrefixOf hFrac
    have hLetters : substitute display ('f' :: 'r' :: 'a' :: 'c' :: after) =
        'f' :: 'r' :: 'a' :: 'c' :: substitute display after := by
      simp only [substitute_ascii display, Char.reduceToNat, Nat.reduceLT, ne_eq, Char.reduceEq,
        not_false_eq_true]
    have hCompletes : completesFraction ('f' :: 'r' :: 'a' :: 'c' :: after) = wordEnds after := by
      simp [completesFraction]
    change substitute display ('\\' :: 'f' :: 'r' :: 'a' :: 'c' :: after) =
      spell '\\' ++ (promotion display '\\' ('f' :: 'r' :: 'a' :: 'c' :: after) ++
        substitute display ('f' :: 'r' :: 'a' :: 'c' :: after))
    rw [substitute, hLetters, spell_ascii (by decide), promotion, hCompletes]
    cases display <;> cases wordEnds after <;> rfl
  · have hPlain : substitute display (c :: rest) = spell c ++ substitute display rest := by
      rw [substitute]
      rintro after rfl rfl
      exact hWord ⟨rfl, Text.isPrefixOf_append_self "frac".toList after⟩
    have hNone : promotion display c rest = [] := by
      rw [promotion, if_neg]
      simp only [completesFraction, Bool.and_eq_true, decide_eq_true_eq]
      rintro ⟨⟨-, rfl⟩, hFrac, -⟩
      exact hWord ⟨rfl, hFrac⟩
    rw [hPlain, hNone, List.nil_append]

/-! ## Substitution as a whole -/

/-- The glyphs that have a command. -/
def glyphs : List Char := commands.map Prod.fst

theorem command?_eq_none_iff {c : Char} : command? c = none ↔ c ∉ glyphs := by
  rw [command?, List.lookup_eq_none_iff, glyphs, List.mem_map]
  constructor
  · rintro hNone ⟨entry, hEntry, rfl⟩
    simpa using hNone entry hEntry
  · intro hNot entry hEntry
    simpa using fun hEq => hNot ⟨entry, hEntry, hEq.symm⟩

/-- The commands and the `d` of a fraction are in ASCII, so no glyph is left. -/
theorem command?_of_mem_substitute {display : Bool} {text : Text} :
    ∀ c ∈ substitute display text, command? c = none := by
  induction text with
  | nil => exact fun _ hMem => nomatch hMem
  | cons c rest ih =>
    intro d hd
    rw [substitute_cons, List.mem_append, List.mem_append] at hd
    rcases hd with hSpell | hPromotion | hRest
    · cases hCommand : command? c with
      | none =>
        rw [spell_of_none hCommand, List.mem_singleton] at hSpell
        rw [hSpell, hCommand]
      | some command =>
        obtain ⟨e, name, rfl, -, hAscii⟩ := exists_of_command? hCommand
        rw [spell, hCommand, Option.getD_some] at hSpell
        rcases List.mem_cons.mp hSpell with rfl | hName
        · exact command?_ascii (by decide)
        · exact command?_ascii (hAscii d hName).1
    · rw [promotion] at hPromotion
      split at hPromotion
      · rw [List.mem_singleton.mp hPromotion]
        exact command?_ascii (by decide)
      · cases hPromotion
    · exact ih d hRest

/-- Without display fractions, substitution spells every character by itself. -/
theorem substitute_false (text : Text) : substitute false text = text.flatMap spell := by
  induction text with
  | nil => rfl
  | cons c rest ih =>
    rw [substitute_cons, ih, List.flatMap_cons]
    rfl

theorem flatMap_spell_of_none {text : Text} (h : ∀ c ∈ text, command? c = none) :
    text.flatMap spell = text := by
  rw [List.flatMap_congr fun c hc => spell_of_none (h c hc)]
  exact List.flatMap_singleton' text

/-- At this place stands `\frac`, and no word character follows it. -/
structure IsFractionAt (text : Text) (place : Nat) : Prop where
  word : "\\frac".toList <+: text.drop place
  ends : ∀ c ∈ text[place + 5]?, Unicode.isWord c = false

instance (text : Text) (place : Nat) : Decidable (IsFractionAt text place) :=
  decidable_of_iff ("\\frac".toList <+: text.drop place ∧
      text[place + 5]?.all fun c => !Unicode.isWord c)
    ⟨fun ⟨hWord, hEnds⟩ => ⟨hWord, by simpa [Option.all_eq_true] using hEnds⟩,
      fun h => ⟨h.word, by simpa [Option.all_eq_true] using h.ends⟩⟩

theorem wordEnds_iff (text : Text) :
    wordEnds text = true ↔ ∀ c ∈ text[0]?, Unicode.isWord c = false := by
  cases text with
  | nil => simp [wordEnds]
  | cons c rest => simp [wordEnds]

theorem isFractionAt_iff (before : Text) (c : Char) (rest : Text) :
    IsFractionAt (before ++ c :: rest) before.length ↔ c = '\\' ∧ completesFraction rest := by
  have hDrop : (before ++ c :: rest).drop before.length = c :: rest := List.drop_left
  have hEnd : (before ++ c :: rest)[before.length + 5]? = (rest.drop 4)[0]? := by
    rw [List.getElem?_append_right (Nat.le_add_right _ _), Nat.add_sub_cancel_left,
      List.getElem?_cons_succ, List.getElem?_drop]
  have hWord : "\\frac".toList <+: c :: rest ↔ c = '\\' ∧ "frac".toList.isPrefixOf rest := by
    rw [List.isPrefixOf_iff_prefix, eq_comm]
    exact List.cons_prefix_cons
  rw [completesFraction, Bool.and_eq_true, wordEnds_iff, ← hEnd, ← and_assoc, ← hWord]
  constructor
  · rintro ⟨hFront, hEnds⟩
    exact ⟨hDrop ▸ hFront, hEnds⟩
  · rintro ⟨hFront, hEnds⟩
    exact ⟨hDrop.symm ▸ hFront, hEnds⟩

/-- With display fractions, a `d` is put behind the backslash of each `\frac` besides. -/
theorem substitute_true (text : Text) :
    substitute true text = Text.atPlaces
      (fun place c => spell c ++ if IsFractionAt text place then ['d'] else []) text := by
  refine @Text.eq_atPlaces (fun _ rest => substitute true rest) _ text (fun _ => rfl) ?_
  rintro before c rest rfl
  rw [substitute_cons, List.append_assoc, promotion]
  congr 2
  simp [isFractionAt_iff]

/-- What substitution does, with display fractions and without: every glyph of the table becomes its
command and everything else stays, up to the `d` of the fractions that the text itself has. -/
theorem substitute_scan :
    (glyphs.length = 22 ∧ glyphs.Nodup ∧ (∀ entry ∈ commands, spell entry.1 = entry.2) ∧
      ∀ c ∉ glyphs, spell c = [c]) ∧
    (∀ text, substitute false text = text.flatMap spell) ∧
    (∀ first second, substitute false (first ++ second) =
      substitute false first ++ substitute false second) ∧
    (∀ text, substitute false (substitute false text) = substitute false text) ∧
    (∀ text, substitute true text = Text.atPlaces
      (fun place c => spell c ++ if IsFractionAt text place then ['d'] else []) text) ∧
    ∀ display text, ∀ c ∈ substitute display text, c ∉ glyphs := by
  refine ⟨⟨rfl, by decide, by decide, fun c hc => spell_of_none (command?_eq_none_iff.mpr hc)⟩,
    substitute_false, fun first second => ?_, fun text => ?_, substitute_true,
    fun display text c hc => command?_eq_none_iff.mp (command?_of_mem_substitute c hc)⟩
  · rw [substitute_false, substitute_false, substitute_false, List.flatMap_append]
  · rw [substitute_false (substitute false text)]
    exact flatMap_spell_of_none command?_of_mem_substitute

/-- A letter glyph continues the word `frac`, although its command does not. -/
example : substitute true "\\fracπ".toList = "\\frac\\pi ".toList := by decide +kernel

end Formulary.Symbol
