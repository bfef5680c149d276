import Formulary.Proofs.Markup.Script
import Formulary.Proofs.Markup.Symbol
import Mathlib.Data.List.Infix
import Mathlib.Tactic.ByContra

/-!
# Fractions through the stages

The first two stages disagree about fractions in scripts: substitution writes them as `\dfrac` and
shrinking as `\frac`. `IsSettled` says, character by character, when the two cancel: the text has no
glyph, no `\dfrac` stands in a script, and with display fractions every `\frac` does.

* `isPromoted_substitute`: a substituted text has no glyph and no `\frac` left to promote;
* `isSettled_shrunk`: shrinking settles such a text;
* `shrunk_substitute`: the two stages restore a settled text.
-/

namespace Formulary.Markup

open Formulary.Symbol Script

/-- There is no glyph and no fraction that is still to be promoted. -/
def IsPromoted (display : Bool) : Text → Prop
  | [] => True
  | c :: rest =>
    command? c = none ∧ (display = true → c = '\\' → completesFraction rest = false) ∧
      IsPromoted display rest

/-- There is no glyph, no `\dfrac` in a script and, with display fractions, no `\frac` outside of
one. The reading stands at a spot, and `slash` says that a backslash stands before the text. -/
def IsSettled (display : Bool) : Bool → Spot → Text → Prop
  | _, _, [] => True
  | slash, spot, c :: rest =>
    command? c = none ∧
      drops slash spot (c :: rest) = false ∧
      (display = true → c = '\\' → completesFraction rest → spot = .inside ∧ '\x7d' ∈ rest) ∧
      IsSettled display (c = '\\') (spot.after c) rest

/-! ## Words in rewritten texts -/

/-- Substitution puts a word without a backslash nowhere. -/
theorem isPrefixOf_of_substitute {display : Bool} {word text : Text} (hWord : '\\' ∉ word)
    (h : word.isPrefixOf (substitute display text)) : word.isPrefixOf text := by
  induction word generalizing text with
  | nil => simp
  | cons d word ih =>
    simp only [List.mem_cons, not_or] at hWord
    cases text with
    | nil => simp [substitute] at h
    | cons c rest =>
      rw [substitute_cons] at h
      cases hCommand : command? c with
      | some command =>
        obtain ⟨e, name, rfl, -⟩ := exists_of_command? hCommand
        simp only [spell, hCommand, Option.getD_some, List.cons_append, List.isPrefixOf_cons_cons,
          Bool.and_eq_true, beq_iff_eq] at h
        exact absurd h.1.symm hWord.1
      | none =>
        simp only [spell_of_none hCommand, List.cons_append, List.nil_append,
          List.isPrefixOf_cons_cons, Bool.and_eq_true, beq_iff_eq] at h ⊢
        obtain ⟨rfl, hRest⟩ := h
        have hNone : promotion display d rest = [] := by simp [promotion, Ne.symm hWord.1]
        rw [hNone, List.nil_append] at hRest
        exact ⟨rfl, ih hWord.2 hRest⟩

theorem substitute_frac (display : Bool) (after : Text) :
    substitute display ('f' :: 'r' :: 'a' :: 'c' :: after) =
      'f' :: 'r' :: 'a' :: 'c' :: substitute display after := by
  simp only [substitute_ascii display, Char.reduceToNat, Nat.reduceLT, ne_eq, Char.reduceEq,
    not_false_eq_true]

theorem exists_of_completesFraction {text : Text} (h : completesFraction text) :
    ∃ after, text = 'f' :: 'r' :: 'a' :: 'c' :: after ∧ wordEnds after := by
  obtain ⟨hWord, hEnds⟩ := Bool.and_eq_true_iff.mp h
  obtain ⟨after, rfl⟩ := Text.exists_of_isPrefixOf hWord
  exact ⟨after, rfl, hEnds⟩

theorem mem_substitute {display : Bool} {text : Text} (hNone : ∀ c ∈ text, command? c = none) :
    '\x7d' ∈ substitute display text ↔ '\x7d' ∈ text := by
  induction text with
  | nil => simp [substitute]
  | cons c rest ih =>
    have hPromotion : '\x7d' ∉ promotion display c rest := by
      rw [promotion]
      split <;> simp
    rw [substitute_cons, spell_of_none (hNone c List.mem_cons_self)]
    simp [hPromotion, ih fun d hd => hNone d (List.mem_cons_of_mem _ hd)]

theorem mem_shrunk (slash : Bool) (spot : Spot) (text : Text) :
    '\x7d' ∈ shrunk slash spot text ↔ '\x7d' ∈ text := by
  induction text generalizing slash spot with
  | nil => simp [shrunk]
  | cons c rest ih =>
    by_cases hc : c = 'd'
    · subst hc
      rw [shrunk]
      split <;> simp [ih]
    · have hKeeps : drops slash spot (c :: rest) = false := by
        simp [drops, isOpenFraction_cons hc]
      rw [shrunk_cons hKeeps, List.mem_cons, List.mem_cons, ih]

/-- Behind anything but a backslash, a word without a backslash stays where it is. -/
theorem isPrefixOf_shrunk {word : Text} (hWord : '\\' ∉ word) (spot : Spot) (text : Text) :
    word.isPrefixOf (shrunk false spot text) = word.isPrefixOf text := by
  induction word generalizing spot text with
  | nil => simp
  | cons d word ih =>
    simp only [List.mem_cons, not_or] at hWord
    cases text with
    | nil => rfl
    | cons c rest =>
      rw [shrunk_false_cons, List.isPrefixOf_cons_cons, List.isPrefixOf_cons_cons]
      by_cases hc : d = c
      · subst hc
        rw [decide_eq_false (Ne.symm hWord.1), ih hWord.2]
      · rw [beq_false_of_ne hc, Bool.false_and, Bool.false_and]

theorem wordEnds_shrunk (spot : Spot) (text : Text) :
    wordEnds (shrunk false spot text) = wordEnds text := by
  cases text with
  | nil => rfl
  | cons c rest =>
    rw [shrunk_false_cons]
    rfl

theorem completesFraction_shrunk (spot : Spot) (text : Text) :
    completesFraction (shrunk false spot text) = completesFraction text := by
  have hSlash : '\\' ∉ "frac".toList := by decide
  have hFront := isPrefixOf_shrunk hSlash spot text
  rw [completesFraction, completesFraction, hFront]
  cases hWord : "frac".toList.isPrefixOf text with
  | false => rfl
  | true =>
    obtain ⟨after, rfl⟩ := Text.exists_of_isPrefixOf hWord
    change (true && wordEnds ((shrunk false spot ('f' :: 'r' :: 'a' :: 'c' :: after)).drop 4)) =
      (true && wordEnds after)
    simp [shrunk_false_cons, wordEnds_shrunk]

theorem isOpenFraction_shrunk (c : Char) (spot : Spot) (rest : Text) :
    isOpenFraction (c :: shrunk (c = '\\') spot rest) = isOpenFraction (c :: rest) := by
  by_cases hc : c = 'd'
  · subst hc
    have hSlash : '\\' ∉ "frac".toList := by decide
    have hFront := isPrefixOf_shrunk hSlash spot rest
    have hWord : ∀ text : Text,
        "dfrac".toList.isPrefixOf ('d' :: text) = "frac".toList.isPrefixOf text := fun _ => rfl
    have hMem : '\x7d' ∈ 'd' :: shrunk false spot rest ↔ '\x7d' ∈ 'd' :: rest := by
      rw [List.mem_cons, List.mem_cons, mem_shrunk]
    rw [isOpenFraction, isOpenFraction, hWord, hWord]
    rw [show decide ('d' = '\\') = false from rfl, hFront, decide_eq_decide.mpr hMem]
  · rw [isOpenFraction_cons hc, isOpenFraction_cons hc]

/-! ## Substituted texts -/

theorem isPromoted_append {display : Bool} {word rest : Text}
    (hWord : ∀ c ∈ word, c.toNat < 128 ∧ c ≠ '\\') (hRest : IsPromoted display rest) :
    IsPromoted display (word ++ rest) := by
  induction word with
  | nil => exact hRest
  | cons c word ih =>
    obtain ⟨hAscii, hSlash⟩ := hWord c List.mem_cons_self
    exact ⟨command?_ascii hAscii, fun _ hc => absurd hc hSlash,
      ih fun d hd => hWord d (List.mem_cons_of_mem _ hd)⟩

theorem isPromoted_command {display : Bool} {c : Char} {command rest : Text}
    (hCommand : command? c = some command) (hRest : IsPromoted display rest) :
    IsPromoted display (command ++ rest) := by
  obtain ⟨d, name, rfl, hLetter, hName⟩ := exists_of_command? hCommand
  refine ⟨command?_ascii (by decide), fun _ _ => ?_, isPromoted_append hName hRest⟩
  simp [completesFraction, List.isPrefixOf, Ne.symm hLetter]

/-- A glyph that is a letter: every one but the empty set and infinity. -/
def isLetterGlyph (c : Char) : Bool := (command? c).isSome && c ≠ '∅' && c ≠ '∞'

/-- The text has no `\frac` with a letter glyph directly behind it. -/
def NoGlyphFraction (text : Text) : Prop :=
  ∀ before c after, text = before ++ "\\frac".toList ++ c :: after → isLetterGlyph c = false

instance : DecidablePred NoGlyphFraction := fun text =>
  decidable_of_iff (∀ rest ∈ text.tails, "\\frac".toList.isPrefixOf rest →
      (rest.drop 5).head?.any isLetterGlyph = false) <| by
    constructor
    · rintro h before c after rfl
      refine h ("\\frac".toList ++ c :: after) ?_ (Text.isPrefixOf_append_self _ _)
      exact (List.mem_tails _ _).mpr ⟨before, by simp⟩
    · intro h rest hRest hWord
      obtain ⟨before, rfl⟩ := (List.mem_tails _ _).mp hRest
      obtain ⟨behind, rfl⟩ := Text.exists_of_isPrefixOf hWord
      cases behind with
      | nil => rfl
      | cons d after => exact h before d after (by simp)

theorem NoGlyphFraction.tail {c : Char} {rest : Text} (h : NoGlyphFraction (c :: rest)) :
    NoGlyphFraction rest := by
  rintro before d after rfl
  exact h (c :: before) d after rfl

/-- The end of a word stays one, unless a letter glyph is substituted. -/
theorem wordEnds_substitute {display : Bool} {text : Text}
    (hGlyph : ∀ c rest, text = c :: rest → isLetterGlyph c = false)
    (h : wordEnds (substitute display text)) : wordEnds text := by
  cases text with
  | nil => rfl
  | cons c rest =>
    cases hCommand : command? c with
    | some command =>
      have hEither : c = '∅' ∨ c = '∞' := by
        simpa [isLetterGlyph, hCommand, Decidable.imp_iff_not_or] using hGlyph c rest rfl
      have hEmptySet : Unicode.isWord '∅' = false := by decide +kernel
      have hInfinity : Unicode.isWord '∞' = false := by decide +kernel
      rcases hEither with rfl | rfl
      · simp [wordEnds, hEmptySet]
      · simp [wordEnds, hInfinity]
    | none =>
      rw [substitute_cons, spell_of_none hCommand] at h
      exact h

/-- Substitution leaves nothing to promote, provided that no letter glyph follows `\frac`. -/
theorem isPromoted_substitute {display : Bool} {text : Text}
    (h : display = true → NoGlyphFraction text) : IsPromoted display (substitute display text) := by
  induction text with
  | nil => trivial
  | cons c rest ih =>
    have hRest := ih fun hDisplay => (h hDisplay).tail
    rw [substitute_cons]
    cases hCommand : command? c with
    | some command =>
      have hSlash : c ≠ '\\' := by
        rintro rfl
        cases hCommand
      have hNone : promotion display c rest = [] := by simp [promotion, hSlash]
      rw [hNone, spell, hCommand]
      exact isPromoted_command hCommand hRest
    | none =>
      rw [spell_of_none hCommand]
      by_cases hPromote : display && c = '\\' && completesFraction rest
      · rw [promotion, if_pos hPromote]
        have hLetter : ∀ e ∈ ['d'], e.toNat < 128 ∧ e ≠ '\\' :=
          List.forall_mem_singleton.mpr (by decide)
        have hTail := isPromoted_append hLetter hRest
        exact ⟨hCommand, fun _ _ => rfl, hTail⟩
      · rw [promotion, if_neg hPromote]
        refine ⟨hCommand, ?_, hRest⟩
        rintro rfl rfl
        -- a fraction that is complete behind substitution was complete before
        by_contra hCompletes
        apply hPromote
        simp only [Bool.not_eq_false] at hCompletes
        obtain ⟨hWord, hEnds⟩ := Bool.and_eq_true_iff.mp hCompletes
        have hFront := isPrefixOf_of_substitute (by decide) hWord
        obtain ⟨after, rfl⟩ := Text.exists_of_isPrefixOf hFront
        have hAfter : wordEnds after := by
          apply @wordEnds_substitute true after
          · rintro d later rfl
            exact h rfl [] d later rfl
          · change wordEnds ((substitute true ('f' :: 'r' :: 'a' :: 'c' :: after)).drop 4) at hEnds
            rwa [substitute_frac] at hEnds
        simp [completesFraction, hAfter]

/-! ## Settled texts -/

theorem IsSettled.command?_eq_none {display slash : Bool} {spot : Spot} {text : Text}
    (h : IsSettled display slash spot text) : ∀ c ∈ text, command? c = none := by
  induction text generalizing slash spot with
  | nil => simp
  | cons c rest ih =>
    intro d hd
    rcases List.mem_cons.mp hd with rfl | hRest
    · exact h.1
    · exact ih h.2.2.2 d hRest

/-- The backslash before a text matters only when the text goes on with a fraction in a script. -/
theorem IsSettled.of_false {display : Bool} {spot : Spot} {text : Text}
    (h : IsSettled display false spot text) (slash : Bool)
    (hOpen : spot = .inside → isOpenFraction text = false) : IsSettled display slash spot text := by
  cases text with
  | nil => trivial
  | cons c rest =>
    refine ⟨h.1, ?_, h.2.2⟩
    by_cases hSpot : spot = .inside
    · simp [drops, hOpen hSpot]
    · simp [drops, hSpot]

/-- Shrinking settles a text that has nothing to promote. -/
theorem isSettled_shrunk {display : Bool} {text : Text} (h : IsPromoted display text) (slash : Bool)
    (spot : Spot) : IsSettled display slash spot (shrunk slash spot text) := by
  induction text generalizing slash spot with
  | nil => trivial
  | cons c rest ih =>
    obtain ⟨hCommand, hPromoted, hRest⟩ := h
    by_cases hDrops : drops slash spot (c :: rest)
    · -- the `d` goes; the backslash before it now stands before the `f`
      obtain ⟨rfl, -, after, hText, -⟩ := shrunk_of_drops hDrops
      obtain ⟨rfl, rfl⟩ := List.cons.inj hText
      rw [shrunk, hDrops]
      refine (ih hRest false .inside).of_false slash fun _ => ?_
      exact isOpenFraction_cons (by decide) _
    · have hKeeps : drops slash spot (c :: rest) = false := Bool.eq_false_iff.mpr hDrops
      rw [shrunk_cons hKeeps]
      refine ⟨hCommand, ?_, ?_, ih hRest _ _⟩
      · rw [← hKeeps, drops, drops, isOpenFraction_shrunk]
      · rintro hDisplay rfl hCompletes
        by_cases hOpen : spot = .inside ∧ isOpenFraction rest
        · have hCloses := (Bool.and_eq_true_iff.mp hOpen.2).2
          exact ⟨hOpen.1, (mem_shrunk _ _ _).mpr (of_decide_eq_true hCloses)⟩
        · have hSpot : spot.after '\\' = .inside → isOpenFraction rest = false := by
            intro hInside
            have hBefore : spot = .inside := by cases spot <;> first | rfl | cases hInside
            exact Bool.eq_false_iff.mpr fun h => hOpen ⟨hBefore, h⟩
          rw [shrunk_slash hSpot, completesFraction_shrunk, hPromoted hDisplay rfl] at hCompletes
          cases hCompletes

theorem isOpenFraction_of_substitute {display : Bool} {rest : Text} (c : Char)
    (hNone : ∀ e ∈ rest, command? e = none)
    (h : isOpenFraction (c :: substitute display rest)) : isOpenFraction (c :: rest) := by
  obtain ⟨hWord, hCloses⟩ := Bool.and_eq_true_iff.mp h
  have hMem := of_decide_eq_true hCloses
  rw [List.mem_cons, mem_substitute hNone, ← List.mem_cons] at hMem
  have hLetters : ∀ text : Text, "dfrac".toList.isPrefixOf (c :: text) =
      ('d' == c && "frac".toList.isPrefixOf text) := fun _ => rfl
  rw [hLetters, Bool.and_eq_true] at hWord
  have hFront := isPrefixOf_of_substitute (by decide) hWord.2
  rw [isOpenFraction, hLetters, hWord.1, hFront, decide_eq_true hMem]
  rfl

/-- Substitution and shrinking restore a settled text. -/
theorem shrunk_substitute {display slash : Bool} {spot : Spot} {text : Text}
    (h : IsSettled display slash spot text) :
    shrunk slash spot (substitute display text) = text := by
  induction text generalizing slash spot with
  | nil => rfl
  | cons c rest ih =>
    have hNone := h.command?_eq_none
    obtain ⟨hCommand, hKeeps, hDisplay, hRest⟩ := h
    have hTail := ih hRest
    rw [substitute_cons, spell_of_none hCommand, List.singleton_append]
    by_cases hPromote : display && c = '\\' && completesFraction rest
    · -- the `d` that substitution puts in is the one that shrinking drops
      obtain ⟨hBoth, hCompletes⟩ := Bool.and_eq_true_iff.mp hPromote
      obtain ⟨hTrue, hSlash⟩ := Bool.and_eq_true_iff.mp hBoth
      obtain rfl : c = '\\' := of_decide_eq_true hSlash
      obtain ⟨rfl, hCloses⟩ := hDisplay hTrue rfl hCompletes
      obtain ⟨after, rfl, -⟩ := exists_of_completesFraction hCompletes
      have hMem : '\x7d' ∈ substitute display after := by
        rw [mem_substitute fun e he => hNone e (by simp [he])]
        simpa using hCloses
      have hDrops : drops true .inside
          ('d' :: 'f' :: 'r' :: 'a' :: 'c' :: substitute display after) = true := by
        simp [drops, isOpenFraction, hMem]
      rw [substitute_frac] at hTail ⊢
      rw [promotion, if_pos hPromote, shrunk_cons (by simp [drops, isOpenFraction_cons])]
      change '\\' :: shrunk true .inside
        ('d' :: 'f' :: 'r' :: 'a' :: 'c' :: substitute display after) = _
      rw [shrunk, if_pos hDrops, List.nil_append, ← hTail]
      exact congrArg _ (shrunk_slash (fun _ => isOpenFraction_cons (by decide) _) true).symm
    · rw [promotion, if_neg hPromote, List.nil_append]
      have hNoneRest : ∀ e ∈ rest, command? e = none :=
        fun e he => hNone e (List.mem_cons_of_mem _ he)
      have hKeepsHere : drops slash spot (c :: substitute display rest) = false := by
        rw [Bool.eq_false_iff] at hKeeps ⊢
        intro hDrops
        obtain ⟨hBoth, hOpen⟩ := Bool.and_eq_true_iff.mp hDrops
        exact hKeeps (Bool.and_eq_true_iff.mpr
          ⟨hBoth, isOpenFraction_of_substitute c hNoneRest hOpen⟩)
      rw [shrunk_cons hKeepsHere, hTail]

end Formulary.Markup
