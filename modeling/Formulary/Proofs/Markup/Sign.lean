import Formulary.Markup.Stage
import Formulary.Proofs.Delimiter.Fit
import Formulary.Proofs.Markup.Nest
import Formulary.Proofs.Markup.Symbol

/-!
# The brackets of markup

`signs` lists the brackets of markup: braces and parentheses that are not escaped, pipes that may be
sized, and the delimiters behind `\left` and `\right`, which markup has only once it is finished.

A lead is quiet when the character behind it is neither escaped nor the delimiter of a sizing
command, whatever letters come first. Texts that end in a quiet lead can be put one after the other
(`signs_append`). Glyph substitution puts in empty braces at most, and shrinking changes no sign
(`rereads_substitute`, `rereads_shrink`), so the first two stages keep markup `IsOrderly`.
-/

namespace Formulary

open Delimiter Formulary.Symbol

/-! ## Signs -/

/-- What a character that is not escaped does to the brackets around it. -/
def charSigns (c : Char) : List (Sign Bracket) :=
  if c = '\x7b' then [.opening .brace]
  else if c = '\x7d' then [.closing .brace]
  else if c = '(' then [.opening .paren]
  else if c = ')' then [.closing .paren]
  else []

/-- A character by itself is a bracket or nothing. -/
theorem ne_of_mem_charSigns {c : Char} {sign : Sign Bracket} (h : sign ∈ charSigns c) :
    sign ≠ .pipe ∧ sign ≠ .command := by
  have hWords : charSigns c ∈ [[.opening .brace], [.closing .brace], [.opening .paren],
      [.closing .paren], []] := by
    unfold charSigns
    split
    · decide
    · split
      · decide
      · split
        · decide
        · split <;> decide
  have hAll : ∀ word ∈ [[.opening .brace], [.closing .brace], [.opening .paren],
      [.closing .paren], []], ∀ sign ∈ word, sign ≠ .pipe ∧ sign ≠ (.command : Sign Bracket) := by
    decide
  exact hAll _ hWords sign h

/-- The character stands behind a complete `\left` or `\right`. -/
def Lead.isCommand (lead : Lead) : Bool :=
  lead = .word "left".toList || lead = .word "right".toList

/-- What a mark does to the brackets around it. -/
def Mark.signs (mark : Mark) : List (Sign Bracket) :=
  if mark.escaped then []
  else (if mark.lead.isCommand then [.command] else []) ++
    (if isLoosePipe mark then [.pipe] else charSigns mark.char)

/-- The signs of a text that starts behind a lead. -/
def signsFrom (lead : Lead) (text : Text) : List (Sign Bracket) :=
  (marksFrom lead text).flatMap Mark.signs

/-- The signs of a text. -/
def signs (text : Text) : List (Sign Bracket) := signsFrom .plain text

theorem signsFrom_cons (lead : Lead) (c : Char) (rest : Text) :
    signsFrom lead (c :: rest) = Mark.signs ⟨lead, c⟩ ++ signsFrom (lead.after c) rest := rfl

theorem signsFrom_append (lead : Lead) (first second : Text) :
    signsFrom lead (first ++ second) =
      signsFrom lead first ++ signsFrom (lead.through first) second := by
  rw [signsFrom, marksFrom_append, List.flatMap_append]
  rfl

theorem through_append (lead : Lead) (first second : Text) :
    lead.through (first ++ second) = (lead.through first).through second :=
  List.foldl_append

/-! ## Quiet leads -/

/-- Nothing that follows is escaped or the delimiter of a sizing command, unless a backslash comes
first. -/
def Lead.isQuiet : Lead → Bool
  | .plain => true
  | .slash => false
  | .word name => !sizingCommands.any fun command => name.isPrefixOf command

/-- Two leads behind which a text has the same signs. -/
def Alike (lead other : Lead) : Prop := lead = other ∨ lead.isQuiet ∧ other.isQuiet

namespace Alike

variable {lead other : Lead}

theorem refl (lead : Lead) : Alike lead lead := .inl rfl

theorem isQuiet (h : Alike lead other) (hQuiet : lead.isQuiet) : other.isQuiet :=
  h.elim (fun hEq => hEq ▸ hQuiet) And.right

theorem trans {third : Lead} (hFirst : Alike lead other) (hSecond : Alike other third) :
    Alike lead third := by
  rcases hFirst with rfl | ⟨hLead, hOther⟩
  · exact hSecond
  · exact .inr ⟨hLead, hSecond.isQuiet hOther⟩

end Alike

theorem not_mem_of_isQuiet {name : Text} (h : (Lead.word name).isQuiet) (more : Text) :
    name ++ more ∉ sizingCommands := by
  intro hMem
  have hNone : ∀ command ∈ sizingCommands, ¬ name <+: command := by
    simpa [Lead.isQuiet] using h
  exact hNone _ hMem (List.prefix_append name more)

theorem isQuiet_word_append {name : Text} (h : (Lead.word name).isQuiet) (c : Char) :
    (Lead.word (name ++ [c])).isQuiet := by
  simp only [Lead.isQuiet, Bool.not_eq_true', List.any_eq_false] at h ⊢
  intro command hCommand hFront
  obtain ⟨rest, rfl⟩ := List.isPrefixOf_iff_prefix.mp hFront
  refine h _ hCommand (List.isPrefixOf_iff_prefix.mpr ?_)
  rw [List.append_assoc]
  exact List.prefix_append name _

theorem isCommand_of_isQuiet {lead : Lead} (h : lead.isQuiet) : lead.isCommand = false := by
  cases lead with
  | slash => cases h
  | plain => rfl
  | word name =>
    have hName : name ∉ sizingCommands := by simpa using not_mem_of_isQuiet h []
    simp only [Lead.isCommand, Lead.word.injEq, Bool.or_eq_false_iff, decide_eq_false_iff_not]
    constructor
    · rintro rfl
      exact hName (by decide)
    · rintro rfl
      exact hName (by decide)

/-- Behind a quiet lead a character has the signs that it has by itself. -/
theorem signs_of_isQuiet {lead : Lead} (h : lead.isQuiet) (c : Char) :
    Mark.signs ⟨lead, c⟩ = if c = '|' then [.pipe] else charSigns c := by
  have hEscaped : Mark.escaped ⟨lead, c⟩ = false := by
    cases lead with
    | slash => cases h
    | plain => rfl
    | word name => rfl
  have hSized : sizingCommands.any (follows ⟨lead, c⟩) = false := by
    rw [List.any_eq_false]
    intro command hMem hFollows
    obtain rfl : lead = .word command := of_decide_eq_true hFollows
    exact not_mem_of_isQuiet h [] (by simpa using hMem)
  have hLoose : isLoosePipe ⟨lead, c⟩ = decide (c = '|') := by
    simp [isLoosePipe, Mark.isBare, hSized, hEscaped]
  rw [Mark.signs, hEscaped, isCommand_of_isQuiet h, hLoose]
  simp

theorem after_of_isQuiet {lead : Lead} (h : lead.isQuiet) (c : Char) :
    Alike (lead.after c) (Lead.plain.after c) := by
  cases lead with
  | slash => cases h
  | plain => exact .refl _
  | word name =>
    by_cases hAlpha : c.isAlpha
    · have hSlash : c ≠ '\\' := by
        rintro rfl
        revert hAlpha
        decide
      right
      simp only [Lead.after, hAlpha, hSlash, if_true, if_false]
      exact ⟨isQuiet_word_append h c, rfl⟩
    · left
      simp [Lead.after, hAlpha]

namespace Alike

variable {lead other : Lead}

theorem signs_eq (h : Alike lead other) (c : Char) :
    Mark.signs ⟨lead, c⟩ = Mark.signs ⟨other, c⟩ := by
  rcases h with rfl | ⟨hLead, hOther⟩
  · rfl
  · rw [signs_of_isQuiet hLead, signs_of_isQuiet hOther]

theorem symm (h : Alike lead other) : Alike other lead := h.imp Eq.symm And.symm

theorem after (h : Alike lead other) (c : Char) : Alike (lead.after c) (other.after c) := by
  rcases h with rfl | ⟨hLead, hOther⟩
  · exact .refl _
  · exact (after_of_isQuiet hLead c).trans (after_of_isQuiet hOther c).symm

end Alike

/-! ## Rewriting -/

/-- The second text has the signs of the first one up to a relation, and ends in the same way. -/
def Rereads (R : List (Sign Bracket) → List (Sign Bracket) → Prop) (first second : Text) : Prop :=
  ∀ ⦃lead other : Lead⦄, Alike lead other →
    R (signsFrom lead first) (signsFrom other second) ∧
      Alike (lead.through first) (other.through second)

theorem Rereads.refl (text : Text) : Rereads Eq text text := by
  intro lead other h
  induction text generalizing lead other with
  | nil => exact ⟨rfl, h⟩
  | cons c rest ih =>
    obtain ⟨hSigns, hThrough⟩ := ih (h.after c)
    exact ⟨by rw [signsFrom_cons, signsFrom_cons, h.signs_eq, hSigns], hThrough⟩

theorem Rereads.append {R : List (Sign Bracket) → List (Sign Bracket) → Prop}
    (hR : ∀ {first first' second second'}, R first first' → R second second' →
      R (first ++ second) (first' ++ second'))
    {first first' second second' : Text} (hFirst : Rereads R first first')
    (hSecond : Rereads R second second') : Rereads R (first ++ second) (first' ++ second') := by
  intro lead other h
  obtain ⟨hSigns, hThrough⟩ := hFirst h
  obtain ⟨hSigns', hThrough'⟩ := hSecond hThrough
  rw [signsFrom_append, signsFrom_append, through_append, through_append]
  exact ⟨hR hSigns hSigns', hThrough'⟩

theorem Rereads.padded {first second : Text} (h : Rereads Eq first second) :
    Rereads Padded first second := by
  intro lead other hAlike
  obtain ⟨hSigns, hThrough⟩ := h hAlike
  exact ⟨hSigns ▸ .refl _, hThrough⟩

theorem after_slash (lead : Lead) : lead.after '\\' ∈ [.slash, .plain] := by
  cases lead with
  | slash => decide
  | plain => decide
  | word name => exact List.mem_cons_self

theorem after_slash_of_isQuiet {lead : Lead} (h : lead.isQuiet) : lead.after '\\' = .slash := by
  cases lead with
  | slash => cases h
  | plain => rfl
  | word name => rfl

/-- `\frac` and `\dfrac` are words that begin no sizing command. -/
theorem rereads_frac : Rereads Eq "\\frac".toList "\\dfrac".toList := by
  intro lead other h
  have hWords : ∀ next ∈ [Lead.slash, .plain],
      signsFrom next "frac".toList = signsFrom next "dfrac".toList ∧
        (next.through "frac".toList).isQuiet ∧ (next.through "dfrac".toList).isQuiet := by
    decide
  have hAfter : other.after '\\' = lead.after '\\' := by
    rcases h with rfl | ⟨hLead, hOther⟩
    · rfl
    · rw [after_slash_of_isQuiet hLead, after_slash_of_isQuiet hOther]
  obtain ⟨hSigns, hThrough⟩ := hWords _ (after_slash lead)
  constructor
  · change Mark.signs ⟨lead, '\\'⟩ ++ signsFrom (lead.after '\\') "frac".toList =
      Mark.signs ⟨other, '\\'⟩ ++ signsFrom (other.after '\\') "dfrac".toList
    rw [h.signs_eq, hAfter, hSigns]
  · change Alike ((lead.after '\\').through "frac".toList)
      ((other.after '\\').through "dfrac".toList)
    rw [hAfter]
    exact .inr hThrough

theorem Rereads.symm {first second : Text} (h : Rereads Eq first second) :
    Rereads Eq second first := by
  intro lead other hAlike
  obtain ⟨hSigns, hThrough⟩ := h hAlike.symm
  exact ⟨hSigns.symm, hThrough.symm⟩

/-- A glyph becomes a command, perhaps with a letter between braces. -/
theorem rereads_spell (c : Char) : Rereads Padded [c] (spell c) := by
  cases hCommand : command? c with
  | none =>
    rw [spell_of_none hCommand]
    exact (Rereads.refl [c]).padded
  | some command =>
    have hAll : ∀ entry ∈ commands, (charSigns entry.1 = [] ∧ entry.1 ≠ '|' ∧ entry.1 ≠ '\\' ∧
        entry.1.isAlpha = false) ∧ entry.2.head? = some '\\' ∧
          ∀ next ∈ [Lead.slash, .plain], next.through entry.2.tail = .plain ∧
            signsFrom next entry.2.tail ∈ [[], [.opening .brace, .closing .brace]] := by
      decide
    obtain ⟨⟨hSigns, hPipe, hSlash, hAlpha⟩, hHead, hNext⟩ := hAll _ (mem_of_command? hCommand)
    obtain ⟨name, rfl⟩ : ∃ name, command = '\\' :: name := List.head?_eq_some_iff.mp hHead
    intro lead other h
    obtain ⟨hThrough, hName⟩ := hNext _ (after_slash other)
    have hSame : Mark.signs ⟨lead, c⟩ = Mark.signs ⟨other, '\\'⟩ := by
      rw [h.signs_eq]
      have hBare : ∀ d, d ≠ '|' → isLoosePipe ⟨other, d⟩ = false := by
        intro d hd
        simp [isLoosePipe, Mark.isBare, hd]
      simp only [Mark.signs, Mark.escaped, hBare c hPipe, hBare '\\' (by decide), hSigns]
      rfl
    rw [spell, hCommand]
    constructor
    · change Padded (Mark.signs ⟨lead, c⟩ ++ []) (Mark.signs ⟨other, '\\'⟩ ++
        signsFrom (other.after '\\') name)
      rw [hSame]
      refine (Padded.refl _).append ?_
      rcases List.mem_cons.mp hName with hNil | hBraces
      · rw [List.tail_cons] at hNil
        rw [hNil]
        exact .nil
      · rw [List.tail_cons, List.mem_singleton] at hBraces
        rw [hBraces]
        exact .braces .nil
    · change Alike (lead.after c) ((other.after '\\').through name)
      rw [List.tail_cons] at hThrough
      rw [hThrough]
      left
      cases lead <;> simp [Lead.after, hAlpha, hSlash]

/-- Substitution puts in empty braces at most. -/
theorem rereads_substitute (display : Bool) (text : Text) :
    Rereads Padded text (substitute display text) := by
  fun_induction substitute display text with
  | case1 => exact (Rereads.refl []).padded
  | case2 rest ih =>
    have hWord : Rereads Eq "\\frac".toList
        (if display && wordEnds rest then "\\dfrac".toList else "\\frac".toList) := by
      split
      · exact rereads_frac
      · exact .refl _
    exact hWord.padded.append Padded.append ih
  | case3 c rest _ ih => exact (rereads_spell c).append Padded.append ih

theorem append_eq_append {first first' second second' : List (Sign Bracket)} (h : first = first')
    (h' : second = second') : first ++ second = first' ++ second' := by rw [h, h']

theorem Rereads.cons {first second : Text} (c : Char) (h : Rereads Eq first second) :
    Rereads Eq (c :: first) (c :: second) := by
  exact (Rereads.refl [c]).append append_eq_append h

/-- Shrinking changes no sign. -/
theorem rereads_shrink (text : Text) : Rereads Eq text (Script.shrink text) := by
  have hFrom : ∀ inside, Rereads Eq text (Script.shrinkFrom inside text) := by
    intro inside
    fun_induction Script.shrinkFrom inside text with
    | case1 => exact .refl []
    | case2 rest ih => exact rereads_frac.symm.append append_eq_append ih
    | case3 c rest _ ih => exact .cons c ih
    | case4 c rest _ ih => exact .cons c (.cons _ ih)
    | case5 c rest _ ih => exact .cons c ih
    | case6 c rest _ ih => exact .cons c ih
  exact hFrom false

/-! ## Orderly markup -/

/-- The brackets of markup are closed in the right order, none of them is sized, and the markup ends
in a quiet lead. -/
structure IsOrderly (text : Text) : Prop where
  quiet : (Lead.plain.through text).isQuiet
  nested : IsNested (signs text)
  unsized : .command ∉ signs text

theorem signsFrom_of_isQuiet {lead : Lead} (h : lead.isQuiet) (text : Text) :
    signsFrom lead text = signs text :=
  (Rereads.refl text (.inr ⟨h, rfl⟩)).1

/-- The signs of texts that end in a quiet lead stand one after the other. -/
theorem signs_append {first : Text} (h : (Lead.plain.through first).isQuiet) (second : Text) :
    signs (first ++ second) = signs first ++ signs second := by
  unfold signs
  rw [signsFrom_append, signsFrom_of_isQuiet h]
  rfl

/-- A text ends where other markup may begin. -/
def EndsQuiet (text : Text) : Prop := (Lead.plain.through text).isQuiet

instance : DecidablePred EndsQuiet :=
  fun text => inferInstanceAs (Decidable ((Lead.plain.through text).isQuiet = true))

theorem isQuiet_append {first second : Text} (hFirst : (Lead.plain.through first).isQuiet)
    (hSecond : (Lead.plain.through second).isQuiet) :
    (Lead.plain.through (first ++ second)).isQuiet := by
  rw [through_append]
  exact (Rereads.refl second (.inr ⟨rfl, hFirst⟩)).2.isQuiet hSecond

theorem EndsQuiet.insert {first second inner : Text} (hFirst : EndsQuiet first)
    (h : EndsQuiet (first ++ second)) (hInner : EndsQuiet inner) :
    EndsQuiet (first ++ inner ++ second) := by
  have hFront : EndsQuiet (first ++ inner) := isQuiet_append hFirst hInner
  unfold EndsQuiet at h ⊢
  rw [through_append] at h ⊢
  exact (Rereads.refl second (.inr ⟨hFirst, hFront⟩)).2.isQuiet h

instance (text : Text) : Decidable (IsOrderly text) :=
  decidable_of_iff ((Lead.plain.through text).isQuiet ∧ IsNested (signs text) ∧
    .command ∉ signs text)
    ⟨fun ⟨hQuiet, hNested, hUnsized⟩ => ⟨hQuiet, hNested, hUnsized⟩,
      fun h => ⟨h.quiet, h.nested, h.unsized⟩⟩

theorem isOrderly_nil : IsOrderly [] := ⟨rfl, .nil, List.not_mem_nil⟩

theorem IsOrderly.append {first second : Text} (hFirst : IsOrderly first)
    (hSecond : IsOrderly second) : IsOrderly (first ++ second) := by
  refine ⟨isQuiet_append hFirst.quiet hSecond.quiet, ?_, ?_⟩
  · rw [signs_append hFirst.quiet]
    exact hFirst.nested.append hSecond.nested
  · rw [signs_append hFirst.quiet, List.mem_append]
    exact not_or.mpr ⟨hFirst.unsized, hSecond.unsized⟩

/-- Orderly markup may be put into orderly markup wherever that may be cut. -/
theorem IsOrderly.insert {first second inner : Text} (hFirst : (Lead.plain.through first).isQuiet)
    (h : IsOrderly (first ++ second)) (hInner : IsOrderly inner) :
    IsOrderly (first ++ inner ++ second) := by
  have hFront := isQuiet_append hFirst hInner.quiet
  have hSigns : signs (first ++ inner ++ second) =
      signs first ++ (signs inner ++ signs second) := by
    rw [signs_append hFront, signs_append hFirst, List.append_assoc]
  have hOuter : signs (first ++ second) = signs first ++ signs second := signs_append hFirst second
  refine ⟨EndsQuiet.insert hFirst h.quiet hInner.quiet, ?_, ?_⟩
  · rw [IsNested, hSigns, nest_insert hInner.nested, ← hOuter]
    exact h.nested
  · have hUnsized := h.unsized
    rw [hOuter, List.mem_append] at hUnsized
    rw [hSigns]
    simp only [List.mem_append, not_or] at hUnsized ⊢
    exact ⟨hUnsized.1, hInner.unsized, hUnsized.2⟩

theorem signs_of_not_mem {text : Text} (h : '\\' ∉ text) :
    signs text = text.flatMap fun c => if c = '|' then [.pipe] else charSigns c := by
  induction text with
  | nil => rfl
  | cons c rest ih =>
    obtain ⟨hc, hRest⟩ := not_or.mp (mt List.mem_cons.mpr h)
    have hAfter : Lead.plain.after c = .plain := if_neg (Ne.symm hc)
    rw [List.flatMap_cons, ← ih hRest, ← @signs_of_isQuiet .plain rfl c, signs,
      signsFrom_cons, hAfter]
    rfl

theorem through_of_not_mem {text : Text} (h : '\\' ∉ text) : Lead.plain.through text = .plain := by
  induction text with
  | nil => rfl
  | cons c rest ih =>
    obtain ⟨hc, hRest⟩ := not_or.mp (mt List.mem_cons.mpr h)
    have hAfter : Lead.plain.after c = .plain := if_neg (Ne.symm hc)
    rw [Lead.through, List.foldl_cons, hAfter]
    exact ih hRest

/-- The characters that bear on brackets. -/
def bracketChars : List Char := ['\\', '(', ')', '\x7b', '\x7d']

theorem charSigns_of_not_mem {c : Char} (h : c ∉ bracketChars) : charSigns c = [] := by
  simp only [bracketChars, List.mem_cons, List.not_mem_nil, or_false, not_or] at h
  simp [charSigns, h]

theorem signs_subset_of_not_mem {text : Text} (h : ∀ c ∈ bracketChars, c ∉ text) :
    ∀ sign ∈ signs text, sign = .pipe ∧ '|' ∈ text := by
  rw [signs_of_not_mem (h '\\' (by decide))]
  intro sign hSign
  obtain ⟨c, hc, hSign⟩ := List.mem_flatMap.mp hSign
  split at hSign
  · rename_i hPipe
    exact ⟨List.mem_singleton.mp hSign, hPipe ▸ hc⟩
  · rw [charSigns_of_not_mem fun hMem => h c hMem hc] at hSign
    cases hSign

theorem isOrderly_of_not_mem {text : Text} (h : ∀ c ∈ bracketChars, c ∉ text) :
    IsOrderly text := by
  have hPipes := signs_subset_of_not_mem h
  refine ⟨by rw [through_of_not_mem (h '\\' (by decide))]; rfl,
    IsNested.of_pipes fun sign hSign => (hPipes sign hSign).1, fun hMem => ?_⟩
  cases (hPipes _ hMem).1

theorem IsOrderly.of_rereads {first second : Text} (h : Rereads Padded first second)
    (hFirst : IsOrderly first) : IsOrderly second := by
  obtain ⟨hSigns, hThrough⟩ := h (Alike.refl .plain)
  refine ⟨hThrough.isQuiet hFirst.quiet, ?_, ?_⟩
  · rw [IsNested, signs, hSigns.nest_eq]
    exact hFirst.nested
  · rw [signs, hSigns.mem (by simp)]
    exact hFirst.unsized

theorem pipe_not_mem_signs {text : Text} (h : '|' ∉ text) : .pipe ∉ signs text := by
  intro hMem
  obtain ⟨mark, hMark, hSign⟩ := List.mem_flatMap.mp hMem
  have hChar : mark.char ≠ '|' := by
    rintro hEq
    exact h (hEq ▸ char_mem_of_mem_marksFrom hMark)
  have hPipe : isLoosePipe mark = false := by simp [isLoosePipe, Mark.isBare, hChar]
  rw [Mark.signs, hPipe] at hSign
  split at hSign
  · cases hSign
  · rcases List.mem_append.mp hSign with hCommand | hBracket
    · split at hCommand
      · cases List.mem_singleton.mp hCommand
      · cases hCommand
    · exact (ne_of_mem_charSigns hBracket).1 rfl

/-- Markup before its delimiters are sized. -/
def unsizedMarkup (settings : Settings) (raw : Text) : Text :=
  Script.shrink (substitute settings.displayFractions raw)

theorem padded_unsizedMarkup (settings : Settings) (raw : Text) :
    Rereads Padded raw (unsizedMarkup settings raw) := by
  intro lead other h
  obtain ⟨hSigns, hThrough⟩ := rereads_substitute settings.displayFractions raw h
  obtain ⟨hSame, hThrough'⟩ :=
    rereads_shrink (substitute settings.displayFractions raw) (.refl other)
  exact ⟨by rw [unsizedMarkup, ← hSame]; exact hSigns, hThrough.trans hThrough'⟩

end Formulary
