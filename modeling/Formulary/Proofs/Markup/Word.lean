import Formulary.Proofs.Delimiter.Bracket
import Mathlib.Data.List.Induction

/-!
# The control words of markup

A control word is a backslash that is not escaped and the letters behind it, as many as there are.
`controlWords` reads them with their leads, and `mem_controlWords_iff` says that it reads exactly
these.

The stages write whole commands. A glyph becomes a command with a space behind it, or with a brace
and a letter; `\frac` becomes `\dfrac` where no letter follows, and back in scripts; a sizing
command stands before a delimiter. So when all control words of a text are known, and those that the
stages write are, then so are all of the finished text (`words_finish`).
-/

namespace Formulary

open Delimiter Formulary.Symbol

/-! ## Reading control words -/

/-- The control word that ends before a mark. -/
def Mark.ends (mark : Mark) : List Text :=
  match mark.lead with
  | .word name => if mark.char.isAlpha then [] else [name]
  | .plain | .slash => []

/-- The control word that is not yet ended. -/
def Lead.pending : Lead → List Text
  | .word name => [name]
  | .plain | .slash => []

/-- The control words that end in a text which starts behind a lead. -/
def closedFrom (lead : Lead) (text : Text) : List Text := (marksFrom lead text).flatMap Mark.ends

/-- The control words of a text that starts behind a lead. -/
def wordsFrom (lead : Lead) (text : Text) : List Text :=
  closedFrom lead text ++ (lead.through text).pending

/-- The control words of a text. -/
def controlWords (text : Text) : List Text := wordsFrom .plain text

/-- A text does not go on with a letter. -/
def EndsWord (text : Text) : Prop := ∀ c ∈ text.head?, c.isAlpha = false

theorem closedFrom_cons (lead : Lead) (c : Char) (rest : Text) :
    closedFrom lead (c :: rest) = Mark.ends ⟨lead, c⟩ ++ closedFrom (lead.after c) rest := rfl

theorem closedFrom_append (lead : Lead) (first second : Text) :
    closedFrom lead (first ++ second) =
      closedFrom lead first ++ closedFrom (lead.through first) second := by
  rw [closedFrom, marksFrom_append, List.flatMap_append]
  rfl

theorem wordsFrom_append (lead : Lead) (first second : Text) :
    wordsFrom lead (first ++ second) =
      closedFrom lead first ++ wordsFrom (lead.through first) second := by
  rw [wordsFrom, closedFrom_append, through_append, List.append_assoc]
  rfl

theorem mem_ends {mark : Mark} {word : Text} :
    word ∈ mark.ends ↔ mark.lead = .word word ∧ mark.char.isAlpha = false := by
  rw [Mark.ends]
  cases mark.lead with
  | plain => simp
  | slash => simp
  | word name =>
    cases mark.char.isAlpha with
    | true => simp
    | false => simpa using eq_comm

theorem mem_marksFrom {lead : Lead} {text : Text} {mark : Mark} :
    mark ∈ marksFrom lead text ↔
      ∃ front back, text = front ++ mark.char :: back ∧ mark.lead = lead.through front := by
  induction text generalizing lead with
  | nil => simp [marksFrom]
  | cons c rest ih =>
    rw [marksFrom, List.mem_cons, ih]
    constructor
    · rintro (rfl | ⟨front, back, rfl, hLead⟩)
      · exact ⟨[], rest, rfl, rfl⟩
      · exact ⟨c :: front, back, rfl, hLead⟩
    · rintro ⟨front, back, hText, hLead⟩
      cases front with
      | nil =>
        obtain ⟨rfl, -⟩ := List.cons.inj hText
        left
        cases mark
        exact congrArg (Mark.mk · _) hLead
      | cons d front =>
        obtain ⟨rfl, rfl⟩ := List.cons.inj hText
        exact .inr ⟨front, back, rfl, hLead⟩

theorem after_eq_slash {lead : Lead} {c : Char} :
    lead.after c = .slash ↔ c = '\\' ∧ lead ≠ .slash := by
  cases lead with
  | plain => simp [Lead.after]
  | slash =>
    rw [Lead.after]
    split <;> simp
  | word name =>
    rw [Lead.after]
    split
    · rename_i hAlpha
      have hLetter : c ≠ '\\' := by
        rintro rfl
        revert hAlpha
        decide
      simp [hLetter]
    · simp

theorem after_eq_word {lead : Lead} {c : Char} {word : Text} :
    lead.after c = .word word ↔ c.isAlpha ∧
      (lead = .slash ∧ word = [c] ∨ ∃ name, lead = .word name ∧ word = name ++ [c]) := by
  cases lead with
  | plain =>
    rw [Lead.after]
    split <;> simp
  | slash => cases hAlpha : c.isAlpha <;> simp [Lead.after, hAlpha, eq_comm]
  | word name =>
    cases hAlpha : c.isAlpha with
    | true => simp [Lead.after, hAlpha, eq_comm]
    | false =>
      rw [Lead.after, hAlpha, if_neg Bool.false_ne_true]
      split <;> simp

theorem through_letters {name letters : Text} (h : ∀ c ∈ letters, c.isAlpha) :
    (Lead.word name).through letters = .word (name ++ letters) := by
  induction letters generalizing name with
  | nil => rw [List.append_nil]; rfl
  | cons c rest ih =>
    have hAfter : (Lead.word name).after c = .word (name ++ [c]) :=
      after_eq_word.mpr ⟨h c List.mem_cons_self, .inr ⟨name, rfl, rfl⟩⟩
    rw [Lead.through, List.foldl_cons, hAfter]
    have hRest := @ih (name ++ [c]) fun d hd => h d (List.mem_cons_of_mem _ hd)
    rw [List.append_assoc] at hRest
    exact hRest

/-- A kind of leads that take in what is no command, no backslash, and every word that begins with
one of theirs. -/
structure KeepsLetters (kind : Lead → Prop) : Prop where
  plain : kind .plain
  slash : ¬ kind .slash
  word {name : Text} (c : Char) (h : kind (.word name)) : kind (.word (name ++ [c]))

namespace KeepsLetters

variable {kind : Lead → Prop} {lead other : Lead}

theorem letter (hKind : KeepsLetters kind) (h : kind lead) {c : Char} (hAlpha : c.isAlpha) :
    kind (lead.after c) := by
  cases lead with
  | slash => exact absurd h hKind.slash
  | word name =>
    rw [Lead.after, if_pos hAlpha]
    exact hKind.word c h
  | plain =>
    have hSlash : c ≠ '\\' := by
      rintro rfl
      revert hAlpha
      decide
    rw [Lead.after, if_neg hSlash]
    exact hKind.plain

/-- Behind leads of such a kind a character comes to the same, unless it is a letter. -/
theorem after (hKind : KeepsLetters kind) (h : kind lead) (hOther : kind other) (c : Char) :
    lead.after c = other.after c ∨ kind (lead.after c) ∧ kind (other.after c) := by
  cases hAlpha : c.isAlpha with
  | true => exact .inr ⟨hKind.letter h hAlpha, hKind.letter hOther hAlpha⟩
  | false =>
    have hNext : ∀ {lead : Lead}, kind lead →
        lead.after c = if c = '\\' then .slash else .plain := by
      intro lead hLead
      cases lead with
      | plain => rfl
      | slash => exact absurd hLead hKind.slash
      | word name => simp [Lead.after, hAlpha]
    exact .inl ((hNext h).trans (hNext hOther).symm)

theorem through (hKind : KeepsLetters kind) (h : kind lead) (hOther : kind other) (text : Text) :
    lead.through text = other.through text ∨
      kind (lead.through text) ∧ kind (other.through text) := by
  induction text generalizing lead other with
  | nil => exact .inr ⟨h, hOther⟩
  | cons c rest ih =>
    rcases hKind.after h hOther c with hSame | ⟨hNext, hNextOther⟩
    · exact .inl (congrArg (fun next => Lead.through next rest) hSame)
    · exact ih hNext hNextOther

/-- Texts that end in leads of such a kind may be joined. -/
theorem append (hKind : KeepsLetters kind) {first second : Text}
    (hFirst : kind (Lead.plain.through first)) (hSecond : kind (Lead.plain.through second)) :
    kind (Lead.plain.through (first ++ second)) := by
  rw [through_append]
  rcases hKind.through hKind.plain hFirst second with hSame | ⟨-, hBoth⟩
  · rw [← hSame]
    exact hSecond
  · exact hBoth

end KeepsLetters

/-- The text before a character that is escaped ends in a backslash that is not. -/
theorem exists_of_through_eq_slash {front : Text} (h : Lead.plain.through front = .slash) :
    ∃ before, front = before ++ ['\\'] ∧ Lead.plain.through before ≠ .slash := by
  rcases List.eq_nil_or_concat front with rfl | ⟨before, c, rfl⟩
  · cases h
  · rw [List.concat_eq_append, through_append] at h
    obtain ⟨rfl, hBare⟩ := after_eq_slash.mp h
    exact ⟨before, List.concat_eq_append, hBare⟩

/-- A reading stands behind the letters of a control word exactly when they follow a backslash that
is not escaped. -/
theorem through_eq_word {front word : Text} :
    Lead.plain.through front = .word word ↔
      ∃ before, front = before ++ '\\' :: word ∧ Lead.plain.through before ≠ .slash ∧
        word ≠ [] ∧ ∀ c ∈ word, c.isAlpha := by
  constructor
  · intro h
    induction front using List.reverseRecOn generalizing word with
    | nil => cases h
    | append_singleton front c ih =>
      rw [through_append] at h
      obtain ⟨hAlpha, ⟨hLead, rfl⟩ | ⟨name, hLead, rfl⟩⟩ := after_eq_word.mp h
      · obtain ⟨before, rfl, hBare⟩ := exists_of_through_eq_slash hLead
        exact ⟨before, by simp, hBare, by simp, by simpa using hAlpha⟩
      · obtain ⟨before, rfl, hBare, -, hName⟩ := ih hLead
        refine ⟨before, by simp, hBare, by simp, fun d hd => ?_⟩
        rcases List.mem_append.mp hd with hLetter | hLast
        · exact hName d hLetter
        · exact List.mem_singleton.mp hLast ▸ hAlpha
  · rintro ⟨before, rfl, hBare, hNe, hAlpha⟩
    obtain ⟨c, rest, rfl⟩ := List.exists_cons_of_ne_nil hNe
    have hSlash : (Lead.plain.through before).after '\\' = .slash :=
      after_eq_slash.mpr ⟨rfl, hBare⟩
    have hFirst : Lead.slash.after c = .word [c] :=
      after_eq_word.mpr ⟨hAlpha c List.mem_cons_self, .inl ⟨rfl, rfl⟩⟩
    rw [through_append, Lead.through, List.foldl_cons, hSlash, List.foldl_cons, hFirst]
    exact through_letters fun d hd => hAlpha d (List.mem_cons_of_mem _ hd)

/-- The control words of a text are the runs of letters that follow a backslash which is not escaped
and that no letter follows. -/
theorem mem_controlWords_iff {text word : Text} :
    word ∈ controlWords text ↔
      ∃ before after, text = before ++ '\\' :: word ++ after ∧
        Lead.plain.through before ≠ .slash ∧ word ≠ [] ∧ (∀ c ∈ word, c.isAlpha) ∧
        EndsWord after := by
  have hRead : word ∈ controlWords text ↔ ∃ front after, text = front ++ after ∧
      Lead.plain.through front = .word word ∧ EndsWord after := by
    rw [controlWords, wordsFrom, List.mem_append, closedFrom, List.mem_flatMap]
    constructor
    · rintro (⟨mark, hMark, hWord⟩ | hWord)
      · obtain ⟨hLead, hAlpha⟩ := mem_ends.mp hWord
        obtain ⟨front, back, rfl, hThrough⟩ := mem_marksFrom.mp hMark
        refine ⟨front, mark.char :: back, rfl, hThrough.symm.trans hLead, fun c hc => ?_⟩
        cases hc
        exact hAlpha
      · refine ⟨text, [], (List.append_nil text).symm, ?_, nofun⟩
        revert hWord
        cases Lead.plain.through text <;> simp [Lead.pending, eq_comm]
    · rintro ⟨front, after, rfl, hThrough, hEnds⟩
      cases after with
      | nil =>
        rw [List.append_nil, hThrough]
        exact .inr List.mem_cons_self
      | cons c after =>
        refine .inl ⟨⟨.word word, c⟩, mem_marksFrom.mpr ⟨front, after, rfl, hThrough.symm⟩, ?_⟩
        exact mem_ends.mpr ⟨rfl, hEnds c rfl⟩
  rw [hRead]
  constructor
  · rintro ⟨front, after, rfl, hThrough, hEnds⟩
    obtain ⟨before, rfl, hBare, hNe, hAlpha⟩ := through_eq_word.mp hThrough
    exact ⟨before, after, rfl, hBare, hNe, hAlpha, hEnds⟩
  · rintro ⟨before, after, rfl, hBare, hNe, hAlpha, hEnds⟩
    exact ⟨_, after, rfl, through_eq_word.mpr ⟨before, rfl, hBare, hNe, hAlpha⟩, hEnds⟩

/-! ## Stages -/

/-- The commands that the stages write. -/
def stageCommands : List Text := [
  "alpha".toList, "beta".toList, "gamma".toList, "delta".toList, "varepsilon".toList,
  "eta".toList, "theta".toList, "lambda".toList, "mu".toList, "pi".toList, "rho".toList,
  "sigma".toList, "tau".toList, "phi".toList, "psi".toList, "mathbb".toList,
  "varnothing".toList, "infty".toList, "dfrac".toList, "left".toList, "right".toList]

/-- What is known of control words takes in the commands that the stages write, and with a word that
shrinks the one that it shrinks to. -/
structure IsVocabulary (known : Text → Prop) : Prop where
  stage {word : Text} (h : word ∈ stageCommands) : known word
  shrunk {letters : Text} (h : known ("dfrac".toList ++ letters)) :
    known ("frac".toList ++ letters)

theorem toNat_of_isAlpha {c : Char} (h : c.isAlpha) :
    65 ≤ c.toNat ∧ c.toNat ≤ 90 ∨ 97 ≤ c.toNat ∧ c.toNat ≤ 122 := by
  rcases Bool.or_eq_true_iff.mp h with hUpper | hLower
  · exact .inl (of_decide_eq_true hUpper)
  · obtain ⟨hLeast, hMost⟩ := Bool.and_eq_true_iff.mp hLower
    exact .inr ⟨of_decide_eq_true hLeast, of_decide_eq_true hMost⟩

theorem isWord_of_isAlpha {c : Char} (h : c.isAlpha) : Unicode.isWord c := by
  have hAll : ∀ n < 128, (65 ≤ n ∧ n ≤ 90 ∨ 97 ≤ n ∧ n ≤ 122) →
      Unicode.inRanges Unicode.wordRanges n = true := by
    decide +kernel
  have hRange := toNat_of_isAlpha h
  exact hAll c.toNat (by omega) hRange

theorem endsWord_of_wordEnds {text : Text} (h : wordEnds text) : EndsWord text := by
  cases text with
  | nil => exact nofun
  | cons c rest =>
    rintro d ⟨⟩
    rw [wordEnds, Bool.not_eq_true'] at h
    by_contra hAlpha
    rw [isWord_of_isAlpha (by simpa using hAlpha)] at h
    cases h

/-- When the control words of a text behind a lead are known, so are those of another text behind
another lead, and both end in related leads. -/
def Rewords (known : Text → Prop) (R : Lead → Lead → Prop) (lead other : Lead)
    (first second : Text) : Prop :=
  (∀ word ∈ wordsFrom lead first, known word) →
    (∀ word ∈ wordsFrom other second, known word) ∧ R (lead.through first) (other.through second)

/-- Texts are rewritten from the front. -/
theorem Rewords.prepend {known : Text → Prop} {R : Lead → Lead → Prop} {lead other : Lead}
    {first second rest rest' : Text}
    (hFront : (∀ word ∈ closedFrom lead first, known word) →
      ∀ word ∈ closedFrom other second, known word)
    (hRest : Rewords known R (lead.through first) (other.through second) rest rest') :
    Rewords known R lead other (first ++ rest) (second ++ rest') := by
  intro hWords
  rw [wordsFrom_append, List.forall_mem_append] at hWords
  obtain ⟨hLater, hThrough⟩ := hRest hWords.2
  rw [wordsFrom_append, List.forall_mem_append, through_append, through_append]
  exact ⟨⟨hFront hWords.1, hLater⟩, hThrough⟩

/-- Within `\frac` and `\dfrac` no control word ends, and neither ends behind an escaped
backslash. -/
theorem closedFrom_frac {lead : Lead} {name : Text}
    (hName : name ∈ ["frac".toList, "dfrac".toList]) :
    closedFrom lead ('\\' :: name) = Mark.ends ⟨lead, '\\'⟩ := by
  have hLetters : ∀ next ∈ [Lead.slash, .plain], ∀ name ∈ ["frac".toList, "dfrac".toList],
      closedFrom next name = [] := by decide
  rw [closedFrom_cons, hLetters _ (after_slash lead) name hName, List.append_nil]

/-! ### Glyphs -/

/-- Two leads before a text are the same, or stand behind `\frac` and what it is written as. -/
def Promoted (rest : Text) (lead other : Lead) : Prop :=
  lead = other ∨ lead = .word "frac".toList ∧ other = .word "dfrac".toList ∧ EndsWord rest

theorem Promoted.after {c : Char} {rest : Text} {lead other : Lead}
    (h : Promoted (c :: rest) lead other) : lead.after c = other.after c := by
  rcases h with rfl | ⟨rfl, rfl, hEnds⟩
  · rfl
  · have hAlpha : c.isAlpha = false := hEnds c rfl
    simp [Lead.after, hAlpha]

theorem Promoted.through_frac {rest name : Text} {lead other : Lead}
    (hAfter : lead.after '\\' = other.after '\\')
    (hName : name = "frac".toList ∨ name = "dfrac".toList ∧ EndsWord rest) :
    Promoted rest (lead.through "\\frac".toList) (other.through ('\\' :: name)) := by
  change Promoted rest ((lead.after '\\').through "frac".toList)
    ((other.after '\\').through name)
  rw [← hAfter]
  rcases hName with rfl | ⟨rfl, hRest⟩
  · exact .inl rfl
  · have hNext : ∀ next ∈ [Lead.slash, .plain],
        next.through "frac".toList = next.through "dfrac".toList ∨
          next.through "frac".toList = .word "frac".toList ∧
            next.through "dfrac".toList = .word "dfrac".toList := by decide
    exact (hNext _ (after_slash lead)).imp_right fun ⟨hFirst, hSecond⟩ => ⟨hFirst, hSecond, hRest⟩

/-- Nothing is pending behind a glyph, nor behind its command. -/
theorem plain_of_command? {c : Char} {command : Text} (hCommand : command? c = some command)
    (lead other : Lead) : lead.after c = .plain ∧ other.through command = .plain := by
  have hAll : ∀ entry ∈ commands, (entry.1.isAlpha = false ∧ entry.1 ≠ '\\') ∧
      entry.2.head? = some '\\' ∧ ∀ next ∈ [Lead.slash, .plain],
        next.through entry.2.tail = .plain := by
    decide
  obtain ⟨⟨hAlpha, hSlash⟩, hHead, hNext⟩ := hAll _ (mem_of_command? hCommand)
  obtain ⟨name, rfl⟩ : ∃ name, command = '\\' :: name := List.head?_eq_some_iff.mp hHead
  exact ⟨by cases lead <;> simp [Lead.after, hAlpha, hSlash], hNext _ (after_slash other)⟩

section Substitute

variable {known : Text → Prop} (hKnown : IsVocabulary known) {lead other : Lead}

include hKnown

theorem Promoted.step {c : Char} {rest : Text} (h : Promoted (c :: rest) lead other) :
    ((∀ word ∈ Mark.ends ⟨lead, c⟩, known word) → ∀ word ∈ Mark.ends ⟨other, c⟩, known word) ∧
      lead.after c = other.after c := by
  refine ⟨?_, h.after⟩
  rcases h with rfl | ⟨rfl, rfl, hEnds⟩
  · exact id
  · intro _ word hWord
    obtain ⟨hLead, -⟩ := mem_ends.mp hWord
    cases hLead
    exact hKnown.stage (by decide)

/-- A fraction is written as another one where no letter follows it. -/
theorem Promoted.frac {rest rest' name : Text}
    (h : Promoted ('\\' :: 'f' :: 'r' :: 'a' :: 'c' :: rest) lead other)
    (hName : name = "frac".toList ∨ name = "dfrac".toList ∧ EndsWord rest)
    (hRest : ∀ {lead other}, Promoted rest lead other →
      Rewords known (Promoted []) lead other rest rest') :
    Rewords known (Promoted []) lead other ('\\' :: 'f' :: 'r' :: 'a' :: 'c' :: rest)
      ('\\' :: name ++ rest') := by
  obtain ⟨hEnds, hAfter⟩ := h.step hKnown
  have hMem : name ∈ ["frac".toList, "dfrac".toList] := by
    rcases hName with rfl | ⟨rfl, -⟩ <;> decide
  have hFront : (∀ word ∈ closedFrom lead "\\frac".toList, known word) →
      ∀ word ∈ closedFrom other ('\\' :: name), known word := by
    change (∀ word ∈ closedFrom lead ('\\' :: "frac".toList), known word) → _
    rw [closedFrom_frac (by decide), closedFrom_frac hMem]
    exact hEnds
  exact .prepend hFront (hRest (.through_frac hAfter hName))

/-- A glyph is written as a command that ends before the text behind it. -/
theorem Promoted.spell {c : Char} {rest rest' : Text} (h : Promoted (c :: rest) lead other)
    (hRest : ∀ {lead}, Rewords known (Promoted []) lead lead rest rest') :
    Rewords known (Promoted []) lead other (c :: rest) (Symbol.spell c ++ rest') := by
  obtain ⟨hEnds, hAfter⟩ := h.step hKnown
  have hBoth : ((∀ word ∈ closedFrom lead [c], known word) →
      ∀ word ∈ closedFrom other (Symbol.spell c), known word) ∧
        lead.through [c] = other.through (Symbol.spell c) := by
    have hOne : ∀ lead, closedFrom lead [c] = Mark.ends ⟨lead, c⟩ :=
      fun lead => List.append_nil _
    cases hCommand : command? c with
    | none =>
      rw [spell_of_none hCommand, hOne, hOne]
      exact ⟨hEnds, hAfter⟩
    | some command =>
      have hAll : ∀ entry ∈ commands, entry.1.isAlpha = false ∧
          entry.2.head? = some '\\' ∧ ∀ next ∈ [Lead.slash, .plain],
            ∀ word ∈ closedFrom next entry.2.tail, word ∈ stageCommands := by
        decide
      obtain ⟨hAlpha, hHead, hNext⟩ := hAll _ (mem_of_command? hCommand)
      obtain ⟨hPlain, hThrough⟩ := plain_of_command? hCommand lead other
      obtain ⟨name, rfl⟩ : ∃ name, command = '\\' :: name := List.head?_eq_some_iff.mp hHead
      have hClosed := hNext _ (after_slash other)
      have hSame : Mark.ends ⟨other, '\\'⟩ = Mark.ends ⟨other, c⟩ := by
        rw [Mark.ends, Mark.ends]
        simp [hAlpha]
      rw [Symbol.spell, hCommand, Option.getD_some, hOne, closedFrom_cons, hSame,
        List.forall_mem_append]
      exact ⟨fun hWords => ⟨hEnds hWords, fun word hWord => hKnown.stage (hClosed word hWord)⟩,
        hPlain.trans hThrough.symm⟩
  have hLater : Rewords known (Promoted []) (lead.through [c]) (other.through (Symbol.spell c))
      rest rest' := by
    rw [hBoth.2]
    exact hRest
  show Rewords known (Promoted []) lead other ([c] ++ rest) (Symbol.spell c ++ rest')
  exact .prepend hBoth.1 hLater

theorem rewords_substitute (display : Bool) {text : Text} (h : Promoted text lead other) :
    Rewords known (Promoted []) lead other text (substitute display text) := by
  fun_induction substitute display text generalizing lead other with
  | case1 =>
    intro hWords
    refine ⟨?_, h⟩
    rcases h with rfl | ⟨rfl, rfl, -⟩
    · exact hWords
    · intro word hWord
      rw [List.mem_singleton.mp hWord]
      exact hKnown.stage (by decide)
  | case2 rest ih =>
    split
    · rename_i hDisplay
      have hEnds := endsWord_of_wordEnds (Bool.and_eq_true_iff.mp hDisplay).2
      exact h.frac hKnown (.inr ⟨rfl, hEnds⟩) ih
    · exact h.frac hKnown (.inl rfl) ih
  | case3 c rest _ ih => exact h.spell hKnown (ih (.inl rfl))

end Substitute

/-! ### Scripts -/

/-- Two leads are the same, or stand behind words that begin with `\dfrac` and with `\frac` and go
on alike. -/
def Shrunken (lead other : Lead) : Prop :=
  lead = other ∨ ∃ letters, lead = .word ("dfrac".toList ++ letters) ∧
    other = .word ("frac".toList ++ letters)

theorem Shrunken.after {lead other : Lead} (h : Shrunken lead other) (c : Char) :
    Shrunken (lead.after c) (other.after c) := by
  rcases h with rfl | ⟨letters, rfl, rfl⟩
  · exact .inl rfl
  · cases hAlpha : c.isAlpha with
    | true => exact .inr ⟨letters ++ [c], by simp [Lead.after, hAlpha]⟩
    | false => exact .inl (by simp [Lead.after, hAlpha])

theorem Shrunken.through_dfrac {lead other : Lead} (h : Shrunken lead other) :
    Shrunken (lead.through "\\dfrac".toList) (other.through "\\frac".toList) := by
  have hAfter : lead.after '\\' = other.after '\\' := by
    rcases h with rfl | ⟨letters, rfl, rfl⟩ <;> rfl
  have hNext : ∀ next ∈ [Lead.slash, .plain],
      next.through "dfrac".toList = next.through "frac".toList ∨
        next.through "dfrac".toList = .word ("dfrac".toList ++ []) ∧
          next.through "frac".toList = .word ("frac".toList ++ []) := by decide
  change Shrunken ((lead.after '\\').through "dfrac".toList)
    ((other.after '\\').through "frac".toList)
  rw [← hAfter]
  exact (hNext _ (after_slash lead)).imp_right fun hWords => ⟨[], hWords⟩

section Shrink

variable {known : Text → Prop} (hKnown : IsVocabulary known) {lead other : Lead}

include hKnown

theorem Shrunken.step (h : Shrunken lead other) (c : Char) :
    ((∀ word ∈ Mark.ends ⟨lead, c⟩, known word) → ∀ word ∈ Mark.ends ⟨other, c⟩, known word) ∧
      Shrunken (lead.after c) (other.after c) := by
  refine ⟨?_, h.after c⟩
  rcases h with rfl | ⟨letters, rfl, rfl⟩
  · exact id
  · intro hWords word hWord
    obtain ⟨hLead, hAlpha⟩ := mem_ends.mp hWord
    cases hLead
    exact hKnown.shrunk (hWords _ (mem_ends.mpr ⟨rfl, hAlpha⟩))

theorem Shrunken.cons (h : Shrunken lead other) (c : Char) {rest rest' : Text}
    (hRest : ∀ {lead other}, Shrunken lead other → Rewords known Shrunken lead other rest rest') :
    Rewords known Shrunken lead other (c :: rest) (c :: rest') := by
  obtain ⟨hEnds, hAfter⟩ := h.step hKnown c
  have hFront : (∀ word ∈ closedFrom lead [c], known word) →
      ∀ word ∈ closedFrom other [c], known word := by
    rw [closedFrom_cons, closedFrom_cons]
    simpa only [closedFrom, marksFrom, List.flatMap_nil, List.append_nil] using hEnds
  show Rewords known Shrunken lead other ([c] ++ rest) ([c] ++ rest')
  exact .prepend hFront (hRest hAfter)

theorem Shrunken.dfrac (h : Shrunken lead other) {rest rest' : Text}
    (hRest : ∀ {lead other}, Shrunken lead other → Rewords known Shrunken lead other rest rest') :
    Rewords known Shrunken lead other ("\\dfrac".toList ++ rest) ("\\frac".toList ++ rest') := by
  obtain ⟨hEnds, -⟩ := h.step hKnown '\\'
  have hFront : (∀ word ∈ closedFrom lead "\\dfrac".toList, known word) →
      ∀ word ∈ closedFrom other "\\frac".toList, known word := by
    change (∀ word ∈ closedFrom lead ('\\' :: "dfrac".toList), known word) →
      ∀ word ∈ closedFrom other ('\\' :: "frac".toList), known word
    rw [closedFrom_frac (by decide), closedFrom_frac (by decide)]
    exact hEnds
  exact .prepend hFront (hRest h.through_dfrac)

theorem rewords_shrinkFrom (inside : Bool) {text : Text} (h : Shrunken lead other) :
    Rewords known Shrunken lead other text (Script.shrinkFrom inside text) := by
  fun_induction Script.shrinkFrom inside text generalizing lead other with
  | case1 =>
    intro hWords
    refine ⟨?_, h⟩
    rcases h with rfl | ⟨letters, rfl, rfl⟩
    · exact hWords
    · intro word hWord
      rw [List.mem_singleton.mp hWord]
      exact hKnown.shrunk (hWords _ List.mem_cons_self)
  | case2 rest ih => exact h.dfrac hKnown ih
  | case3 c rest _ ih => exact h.cons hKnown c ih
  | case4 c rest _ ih => exact h.cons hKnown c fun hBehind => hBehind.cons hKnown _ ih
  | case5 c rest _ ih => exact h.cons hKnown c ih
  | case6 c rest _ ih => exact h.cons hKnown c ih

end Shrink

/-! ### Delimiters -/

/-- A sizing command ends before its delimiter, and what ended before the delimiter ends before the
command. -/
theorem flatMap_ends_grown {one : Fitted} (hProper : one.IsProper) :
    one.grown.flatMap Mark.ends = one.mark.ends ++ (one.side.map Side.name).toList := by
  obtain ⟨mark, side⟩ := one
  cases side with
  | none =>
    rw [Fitted.grown_none, List.flatMap_singleton]
    exact (List.append_nil _).symm
  | some side =>
    obtain ⟨hDelimiter, hBare⟩ := hProper side rfl
    have hAlpha : mark.char.isAlpha = false := by
      rcases eq_of_isDelimiter hDelimiter with h | h | h <;> rw [h] <;> rfl
    have hSlash : mark.lead.after '\\' = .slash :=
      after_eq_slash.mpr ⟨rfl, by simpa [Mark.escaped] using hBare⟩
    have hName : closedFrom .slash side.name = [] := by cases side <;> decide
    have hAdded : (Fitted.added ⟨mark, some side⟩).flatMap Mark.ends = mark.ends := by
      change closedFrom mark.lead side.command = mark.ends
      rw [side.command_eq, closedFrom_cons, hSlash, hName, List.append_nil, Mark.ends, Mark.ends,
        hAlpha]
      rfl
    have hKept : (Fitted.kept ⟨mark, some side⟩).ends = [side.name] := by
      change (if mark.char.isAlpha then [] else [side.name]) = [side.name]
      rw [hAlpha, if_neg Bool.false_ne_true]
    rw [Fitted.grown, List.flatMap_append, hAdded, List.flatMap_singleton, hKept]
    rfl

/-- The control words of a text are those that end before its characters and the one at its end. -/
theorem controlWords_eq (text : Text) :
    controlWords text = (marks text).flatMap Mark.ends ++ (Lead.plain.through text).pending := rfl

/-- Sizing adds the commands that it puts before delimiters. -/
theorem controlWords_size (pipes : PipeSizing) (text : Text) :
    controlWords (size pipes text) =
      (fitText pipes text).flatMap (fun one => one.mark.ends ++ (one.side.map Side.name).toList) ++
        (Lead.plain.through text).pending := by
  rw [controlWords_eq, through_size, marks_size, List.flatMap_assoc]
  congr 1
  exact List.flatMap_congr fun one hOne => flatMap_ends_grown (isProper_of_mem_fitChunks one hOne)

theorem words_size {known : Text → Prop} (hKnown : IsVocabulary known) (pipes : PipeSizing)
    {text : Text} (hWords : ∀ word ∈ controlWords text, known word) :
    ∀ word ∈ controlWords (size pipes text), known word := by
  rw [controlWords_eq, ← map_mark_fitText pipes text, List.flatMap_map,
    List.forall_mem_append] at hWords
  rw [controlWords_size, List.forall_mem_append]
  refine ⟨fun word hWord => ?_, hWords.2⟩
  obtain ⟨one, hOne, hWord⟩ := List.mem_flatMap.mp hWord
  rcases List.mem_append.mp hWord with hEnds | hSide
  · exact hWords.1 word (List.mem_flatMap.mpr ⟨one, hOne, hEnds⟩)
  · obtain ⟨side, -, rfl⟩ := Option.map_eq_some_iff.mp (Option.mem_toList.mp hSide)
    exact hKnown.stage (by cases side <;> decide)

/-! ### Finished markup -/

/-- When the control words of a text are known, so are those of the finished text, and both end in
the same lead unless the text ends in a fraction. -/
theorem words_finish {known : Text → Prop} (hKnown : IsVocabulary known) (settings : Settings)
    {text : Text} (hWords : ∀ word ∈ controlWords text, known word) :
    (∀ word ∈ controlWords (Markup.finish settings text), known word) ∧
      (Lead.plain.through (Markup.finish settings text) = Lead.plain.through text ∨
        ∃ word, Lead.plain.through text = .word word ∧
          ("frac".toList <+: word ∨ "dfrac".toList <+: word)) := by
  have hSame : Promoted text .plain .plain := .inl rfl
  obtain ⟨hGlyphs, hPromoted⟩ :=
    rewords_substitute hKnown settings.displayFractions hSame hWords
  have hStill : Shrunken .plain .plain := .inl rfl
  obtain ⟨hScripts, hShrunken⟩ := rewords_shrinkFrom hKnown false hStill hGlyphs
  refine ⟨words_size hKnown settings.pipeSizing hScripts, ?_⟩
  change Lead.plain.through (size settings.pipeSizing _) = _ ∨ _
  rw [through_size]
  rcases hPromoted with hFirst | ⟨hFirst, -, -⟩
  · rcases hShrunken with hSecond | ⟨letters, hSecond, -⟩
    · exact .inl (hFirst.trans hSecond).symm
    · exact .inr ⟨_, hFirst.trans hSecond, .inr (List.prefix_append _ _)⟩
  · exact .inr ⟨_, hFirst, .inl (List.prefix_refl _)⟩

end Formulary
