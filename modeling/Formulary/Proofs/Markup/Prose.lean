import Formulary.Proofs.Delimiter.Place
import Formulary.Proofs.Markup.Sign

/-!
# Prose in finished markup

The stages read markup from end to end and do not tell a group `\text` from the rest. What they do
to such a group is read off stretch by stretch:

* glyphs are written one by one and no `\frac` begins within prose, so the text up to the group, the
  prose and the text behind it are written on their own (`substitute_append_cons`);
* the second stage shortens some `\dfrac` and keeps every other character (`Shrinks`), and there is
  none in prose;
* the last stage puts a command before some delimiters (`fitText`), and only in a group around a
  fraction (`forall₂_fitText`).

`finish_prose` puts them together: the group stays where it is, and its prose keeps its characters
apart from glyphs and the commands before its delimiters.
-/

namespace Formulary

open Delimiter Text

/-! ## Glyphs -/

namespace Symbol

variable {mark : Char} (hMark : mark ∉ "frac".toList) (hEnds : Unicode.isWord mark = false)

include hMark hEnds

theorem completesFraction_append_cons (text after : Text) :
    completesFraction (text ++ mark :: after) = completesFraction text := by
  rw [completesFraction, completesFraction, isPrefixOf_append_cons hMark]
  cases hFront : "frac".toList.isPrefixOf text with
  | false => rfl
  | true =>
    obtain ⟨rest, rfl⟩ := exists_of_isPrefixOf hFront
    change wordEnds (rest ++ mark :: after) = wordEnds rest
    cases rest with
    | nil => simp [wordEnds, hEnds]
    | cons c rest => rfl

/-- Before a character that neither completes nor continues `\frac`, a text is written as it would
be on its own. -/
theorem substitute_append_cons (display : Bool) (first after : Text) :
    substitute display (first ++ mark :: after) =
      substitute display first ++ substitute display (mark :: after) := by
  induction first with
  | nil => rfl
  | cons c first ih =>
    have hPromotion : promotion display c (first ++ mark :: after) = promotion display c first := by
      rw [promotion, promotion, completesFraction_append_cons hMark hEnds]
    rw [List.cons_append, substitute_cons, substitute_cons, ih, hPromotion]
    simp only [List.append_assoc]

omit hMark hEnds

theorem substitute_of_not_mem (display : Bool) {text : Text} (h : '\\' ∉ text) :
    substitute display text = text.flatMap spell := by
  induction text with
  | nil => rfl
  | cons c rest ih =>
    obtain ⟨hSlash, hRest⟩ := List.ne_and_not_mem_of_not_mem_cons h
    have hNone : promotion display c rest = [] := by simp [promotion, Ne.symm hSlash]
    rw [substitute_cons, hNone, ih hRest]
    rfl

/-- A glyph is written as a command with a space behind it, and no command begins with `\dfrac`. -/
theorem exists_name_of_command? {c : Char} {command : Text} (h : command? c = some command) :
    ∃ name, command = name ++ [' '] ∧ mentions "\\dfrac".toList name = false := by
  have hAll : ∀ entry ∈ commands, entry.2 = entry.2.dropLast ++ [' '] ∧
      mentions "\\dfrac".toList entry.2.dropLast = false := by decide
  exact ⟨_, hAll _ (mem_of_command? h)⟩

theorem mentions_dfrac_flatMap_spell {text : Text} (h : '\\' ∉ text) (rest : Text) :
    mentions "\\dfrac".toList (text.flatMap spell ++ rest) = mentions "\\dfrac".toList rest := by
  induction text with
  | nil => rfl
  | cons c text ih =>
    obtain ⟨hSlash, hText⟩ := List.ne_and_not_mem_of_not_mem_cons h
    rw [List.flatMap_cons, List.append_assoc]
    cases hCommand : command? c with
    | none =>
      have hHere : "\\dfrac".toList.isPrefixOf (c :: (text.flatMap spell ++ rest)) = false :=
        Bool.and_eq_false_iff.mpr (.inl (beq_false_of_ne hSlash))
      rw [spell_of_none hCommand, List.singleton_append, mentions, hHere, Bool.false_or, ih hText]
    | some command =>
      obtain ⟨name, rfl, hName⟩ := exists_name_of_command? hCommand
      have hSpell : spell c = name ++ [' '] := by rw [spell, hCommand, Option.getD_some]
      rw [hSpell, List.append_assoc, List.singleton_append,
        mentions_append_cons (by decide) (by decide), hName, Bool.false_or, ih hText]

/-- A group of prose is opened as before, and its glyphs are written one by one. -/
theorem substitute_prose (display : Bool) (before : Text) {text : Text} (h : '\\' ∉ text) :
    substitute display (before ++ ("\\text\x7b".toList ++ text)) =
      substitute display before ++ ("\\text\x7b".toList ++ text.flatMap spell) := by
  have hWords : '\\' ∉ "text\x7b".toList ++ text := by
    rw [List.mem_append, not_or]
    exact ⟨by decide, h⟩
  have hLabel : "text\x7b".toList.flatMap spell = "text\x7b".toList := by decide
  have hNone : promotion display '\\' ("text\x7b".toList ++ text) = [] := by
    simp [promotion, completesFraction]
  change substitute display (before ++ '\\' :: ("text\x7b".toList ++ text)) = _
  rw [substitute_append_cons (by decide) (by decide +kernel), substitute_cons, hNone,
    substitute_of_not_mem _ hWords, List.flatMap_append, hLabel, spell_ascii (by decide)]
  rfl

theorem mentions_dfrac_prose {text : Text} (h : '\\' ∉ text) :
    mentions "\\dfrac".toList ("\\text\x7b".toList ++ text.flatMap spell) = false := by
  have hLater := mentions_dfrac_flatMap_spell h []
  rw [List.append_nil] at hLater
  change mentions "\\dfrac".toList ("\\text".toList ++ '\x7b' :: text.flatMap spell) = false
  rw [mentions_append_cons (by decide) (by decide), hLater]
  decide

/-- Only a text without glyphs is written as it stands. -/
theorem flatMap_spell_eq_self_iff {text : Text} (h : '\\' ∉ text) :
    text.flatMap spell = text ↔ ∀ c ∈ text, command? c = none := by
  induction text with
  | nil => exact ⟨fun _ => nofun, fun _ => rfl⟩
  | cons c rest ih =>
    obtain ⟨hSlash, hRest⟩ := List.ne_and_not_mem_of_not_mem_cons h
    rw [List.flatMap_cons, List.forall_mem_cons, ← ih hRest]
    cases hCommand : command? c with
    | none => simp [spell_of_none hCommand]
    | some command =>
      obtain ⟨d, name, rfl, -⟩ := exists_of_command? hCommand
      have hSpell : spell c = '\\' :: d :: name := by rw [spell, hCommand, Option.getD_some]
      simp [hSpell, hSlash]

end Symbol

/-! ## Scripts -/

namespace Script

/-- The second text is the first one with `\frac` for some `\dfrac`. -/
inductive Shrinks : Text → Text → Prop
  | nil : Shrinks [] []
  | keep (c : Char) {first second : Text} (h : Shrinks first second) :
    Shrinks (c :: first) (c :: second)
  | small {first second : Text} (h : Shrinks first second) :
    Shrinks ('\\' :: ("dfrac".toList ++ first)) ('\\' :: ("frac".toList ++ second))

theorem shrinks_shrinkFrom (inside : Bool) (text : Text) :
    Shrinks text (shrinkFrom inside text) := by
  fun_induction shrinkFrom inside text with
  | case1 => exact .nil
  | case2 rest ih => exact .small ih
  | case3 c rest _ ih => exact .keep c ih
  | case4 c rest _ ih => exact .keep c (.keep _ ih)
  | case5 c rest _ ih => exact .keep c ih
  | case6 c rest _ ih => exact .keep c ih

namespace Shrinks

variable {first second result : Text}

/-- Before a character that is none of the letters of `\dfrac`, a text shrinks on its own. -/
theorem exists_of_append_cons {mark : Char} (hMark : mark ∉ "dfrac".toList)
    (h : Shrinks (first ++ mark :: second) result) :
    ∃ front back,
      result = front ++ back ∧ Shrinks first front ∧ Shrinks (mark :: second) back := by
  generalize hWhole : first ++ mark :: second = whole at h
  induction h generalizing first with
  | nil => cases first <;> cases hWhole
  | @keep c rest result h ih =>
    cases first with
    | nil =>
      rw [List.nil_append] at hWhole
      exact ⟨[], _, rfl, .nil, hWhole ▸ h.keep c⟩
    | cons d first =>
      obtain ⟨rfl, hRest⟩ := List.cons.inj hWhole
      obtain ⟨front, back, rfl, hFront, hBack⟩ := ih hRest
      exact ⟨d :: front, back, rfl, hFront.keep d, hBack⟩
  | @small rest result h ih =>
    cases first with
    | nil =>
      rw [List.nil_append] at hWhole
      exact ⟨[], _, rfl, .nil, hWhole ▸ h.small⟩
    | cons d first =>
      obtain ⟨rfl, hRest⟩ := List.cons.inj hWhole
      obtain ⟨mid, rfl, hMid⟩ := exists_of_append_cons_eq hMark hRest
      obtain ⟨front, back, rfl, hFront, hBack⟩ := ih hMid.symm
      exact ⟨'\\' :: ("frac".toList ++ front), back, rfl, hFront.small, hBack⟩

theorem refl (text : Text) : Shrinks text text := by
  induction text with
  | nil => exact .nil
  | cons c rest ih => exact .keep c ih

theorem append_right (h : Shrinks first second) (rest : Text) :
    Shrinks (first ++ rest) (second ++ rest) := by
  induction h with
  | nil => exact refl rest
  | keep c _ ih => exact .keep c ih
  | small _ ih => exact .small ih

/-- A text without `\dfrac` does not shrink. -/
theorem eq_of_mentions (h : Shrinks first second)
    (hNone : mentions "\\dfrac".toList first = false) : second = first := by
  induction h with
  | nil => rfl
  | keep c _ ih => rw [ih (Bool.or_eq_false_iff.mp hNone).2]
  | small _ _ =>
    obtain ⟨hHere, -⟩ := Bool.or_eq_false_iff.mp hNone
    cases hHere

end Shrinks

end Script

/-! ## Delimiters -/

namespace Delimiter

/-- A text that has no backslash as it is written has no command. -/
theorem side_eq_none_of_not_mem {fitted : List Fitted} (h : '\\' ∉ write fitted) :
    ∀ one ∈ fitted, one.side = none := by
  intro one hOne
  by_contra hSide
  obtain ⟨side, hSome⟩ := Option.ne_none_iff_exists'.mp hSide
  refine h (List.mem_flatMap.mpr ⟨one, hOne, List.mem_append_left _ ?_⟩)
  rw [Fitted.command, hSome, Option.elim_some, side.command_eq]
  exact List.mem_cons_self

end Delimiter

/-! ## Finished markup -/

/-- What the stages make of a stretch of markup: the first two leave the bare text of some marks,
and the last writes the marks. -/
structure Finishes (settings : Settings) (raw : Text) (fitted : List Fitted) (out : Text) :
    Prop where
  unsized : Script.Shrinks (Symbol.substitute settings.displayFractions raw) (bareText fitted)
  written : write fitted = out

/-- Before delimiters are sized, a group of prose stands where it stood, its glyphs as commands. -/
theorem unsizedMarkup_prose (settings : Settings) {raw before text after : Text}
    (hRaw : raw = before ++ ("\\text".toList ++ braced text) ++ after) (hSlash : '\\' ∉ text) :
    ∃ early late,
      unsizedMarkup settings raw =
        (early ++ "\\text\x7b".toList) ++ (text.flatMap Symbol.spell ++ '\x7d' :: late) ∧
      Script.Shrinks
        (Symbol.substitute settings.displayFractions (before ++ "\\text\x7b".toList))
        (early ++ "\\text\x7b".toList) ∧
      Script.Shrinks (Symbol.substitute settings.displayFractions ('\x7d' :: after))
        ('\x7d' :: late) := by
  have hParts : raw = (before ++ ("\\text\x7b".toList ++ text)) ++ '\x7d' :: after := by
    rw [hRaw]
    simp [braced]
  have hLabel := Symbol.substitute_prose settings.displayFractions before List.not_mem_nil
  rw [List.flatMap_nil, List.append_nil] at hLabel
  have hBrace := @Symbol.substitute_ascii '\x7d' settings.displayFractions (by decide) (by decide)
    after
  have hShrinks : Script.Shrinks (Symbol.substitute settings.displayFractions raw)
      (unsizedMarkup settings raw) := Script.shrinks_shrinkFrom false _
  rw [hParts, Symbol.substitute_append_cons (by decide) (by decide +kernel),
    Symbol.substitute_prose _ _ hSlash, hBrace, ← hParts] at hShrinks
  obtain ⟨front, back, hUnsized, hFront, hBack⟩ := hShrinks.exists_of_append_cons (by decide)
  obtain ⟨early, group, rfl, hEarly, hGroup⟩ := @Script.Shrinks.exists_of_append_cons _
    ("text\x7b".toList ++ text.flatMap Symbol.spell) _ '\\' (by decide) hFront
  have hSame := hGroup.eq_of_mentions (Symbol.mentions_dfrac_prose hSlash)
  cases hBack with
  | keep _ hLate =>
    refine ⟨early, _, ?_, ?_, hBrace ▸ hLate.keep _⟩
    · rw [hUnsized, hSame]
      simp
    · rw [hLabel]
      exact hEarly.append_right _

/-- Glyphs and sized delimiters bring in backslashes, so without them only prose is written as it
stands. -/
theorem write_eq_iff {text : Text} {fitted : List Fitted} (hSlash : '\\' ∉ text)
    (hBare : bareText fitted = text.flatMap Symbol.spell) :
    write fitted = text ↔
      (∀ c ∈ text, Symbol.command? c = none) ∧ ∀ one ∈ fitted, one.side = none := by
  rw [← Symbol.flatMap_spell_eq_self_iff hSlash]
  constructor
  · intro hWrite
    have hSides := side_eq_none_of_not_mem (hWrite.symm ▸ hSlash)
    exact ⟨by rw [← hBare, ← write_of_side_eq_none hSides, hWrite], hSides⟩
  · rintro ⟨hText, hSides⟩
    rw [write_of_side_eq_none hSides, hBare, hText]

/-- How the stages leave a group of prose. The marks that the last stage writes fall into those up
to the prose, those of the prose and those behind it. -/
structure KeepsProse (settings : Settings) (before text after : Text)
    (opening inside closing : List Fitted) (front back : Text) : Prop where
  /-- The marks of the markup as a whole. -/
  cut : fitText settings.pipeSizing
    (unsizedMarkup settings (before ++ ("\\text".toList ++ braced text) ++ after)) =
      opening ++ inside ++ closing
  opened : Finishes settings (before ++ "\\text\x7b".toList) opening
    (front ++ "\\text\x7b".toList)
  closed : Finishes settings ('\x7d' :: after) closing ('\x7d' :: back)
  /-- Glyphs of the prose are written as commands. -/
  spelled : bareText inside = text.flatMap Symbol.spell
  /-- What is sized in the prose is a delimiter in a group around a fraction. -/
  placed : List.Forall₂ Fitted.IsPlaced
    (((sizedPlaces (unsizedMarkup settings
      (before ++ ("\\text".toList ++ braced text) ++ after))).drop opening.length).take
        inside.length) inside
  /-- The prose stays as it is when it has no glyphs and none of its delimiters is sized. -/
  same : write inside = text ↔
    (∀ c ∈ text, Symbol.command? c = none) ∧ ∀ one ∈ inside, one.side = none

/-- A group of prose stays where it is, between what the stages make of the text before it and of
the text behind it. -/
theorem finish_prose (settings : Settings) (before : Text) {text : Text} (after : Text)
    (hSlash : '\\' ∉ text) :
    ∃ opening inside closing front back,
      Markup.finish settings (before ++ ("\\text".toList ++ braced text) ++ after) =
        front ++ ("\\text".toList ++ braced (write inside)) ++ back ∧
      KeepsProse settings before text after opening inside closing front back := by
  generalize hRaw : before ++ ("\\text".toList ++ braced text) ++ after = raw
  obtain ⟨early, late, hUnsized, hEarly, hLate⟩ := unsizedMarkup_prose settings hRaw.symm hSlash
  have hPlaced := forall₂_fitText settings.pipeSizing (unsizedMarkup settings raw)
  have hProper : ∀ one ∈ fitText settings.pipeSizing (unsizedMarkup settings raw), one.IsProper :=
    isProper_of_mem_fitChunks
  have hBare := (bareText_fitText settings.pipeSizing (unsizedMarkup settings raw)).trans hUnsized
  -- Cut the marks where the markup falls apart.
  obtain ⟨opening, rest, hSplit, hOpening, hRest⟩ := exists_of_bareText_append hBare
  obtain ⟨inside, closing, rfl, hInside, hClosing⟩ := exists_of_bareText_append hRest
  obtain ⟨ahead, label, rfl, -, hLabel⟩ := exists_of_bareText_append hOpening
  obtain ⟨brace, behind, rfl, hBrace, -⟩ :=
    @exists_of_bareText_append closing ['\x7d'] late hClosing
  rw [hSplit] at hProper hPlaced
  simp only [List.forall_mem_append] at hProper
  obtain ⟨⟨-, hProperLabel⟩, -, hProperBrace, -⟩ := hProper
  have hPlainLabel : ∀ c ∈ "\\text\x7b".toList, isDelimiter c = false :=
    List.all_iff_forall_prop.mp (by decide)
  have hWriteLabel : write label = "\\text\x7b".toList := by
    rw [write_of_not_delimiter hProperLabel (hLabel ▸ hPlainLabel), hLabel]
  have hPlainBrace : ∀ c ∈ ['\x7d'], isDelimiter c = false :=
    List.all_iff_forall_prop.mp (by decide)
  have hWriteBrace : write brace = ['\x7d'] := by
    rw [write_of_not_delimiter hProperBrace (hBrace ▸ hPlainBrace), hBrace]
  have hFinish : Markup.finish settings raw =
      write ((ahead ++ label) ++ (inside ++ (brace ++ behind))) := by
    rw [← hSplit, write_fitText]
    rfl
  refine ⟨ahead ++ label, inside, brace ++ behind, write ahead, write behind, ?_, ?_⟩
  · rw [hFinish]
    simp only [write_append, hWriteLabel, hWriteBrace]
    simp [braced]
  · rw [← hRaw] at hSplit hPlaced
    exact {
      cut := by rw [hSplit, List.append_assoc (ahead ++ label)]
      opened := ⟨hOpening ▸ hEarly, by rw [write_append, hWriteLabel]⟩
      closed := ⟨hClosing ▸ hLate, by rw [write_append, hWriteBrace]; rfl⟩
      spelled := hInside
      placed := List.forall₂_take_append _ inside _
        (List.forall₂_drop_append _ (ahead ++ label) _ hPlaced)
      same := write_eq_iff hSlash hInside }

end Formulary
