import Formulary.Markup.Stage
import Formulary.Proofs.Delimiter.Settled
import Formulary.Proofs.Markup.Fraction

/-!
# Finished markup stays as it is

Running the stages over finished markup changes nothing (`finish_finish`), as long as pipes are not
sized by the first pair and, with display fractions, no letter glyph stands directly behind `\frac`
in the raw markup. Behind the glyph's command such a fraction is complete for the second run only.

The first run settles the fractions (`isSettled_shrunk`) and the delimiters (`settled_size`). Sizing
commands bear on no fraction (`isSettled_write`), so the second run finds both settled.
-/

namespace Formulary.Markup

open Delimiter
open Script (Spot drops isMark isOpenFraction isOpenFraction_cons shrink_eq_shrunk)
open Formulary.Symbol (command?_ascii completesFraction wordEnds)

/-! ## Sizing commands and fractions -/

/-- The spot behind a character that bears on no script. -/
def calm : Spot → Spot
  | .inside => .inside
  | _ => .outside

/-- The character bears on no fraction and no script. -/
def isInert (c : Char) : Bool :=
  c.toNat < 128 && c ∉ ['\\', 'd', '\x7b', '\x7d', '_', '^']

theorem after_of_not_mem {c : Char} (hc : c ∉ ['\x7b', '\x7d', '_', '^']) (spot : Spot) :
    spot.after c = calm spot := by
  simp only [List.mem_cons, List.not_mem_nil, or_false, not_or] at hc
  obtain ⟨hOpen, hClose, hSub, hSuper⟩ := hc
  cases spot <;> simp [Spot.after, calm, isMark, hOpen, hClose, hSub, hSuper]

theorem isSettled_cons_inert {c : Char} (hc : isInert c) {display slash : Bool} {spot : Spot}
    {rest : Text} :
    IsSettled display slash spot (c :: rest) ↔ IsSettled display false (calm spot) rest := by
  simp only [isInert, Bool.and_eq_true, decide_eq_true_eq] at hc
  obtain ⟨hAscii, hPlain⟩ := hc
  have hSlash : c ≠ '\\' := fun h => hPlain (by simp [h])
  have hLetter : c ≠ 'd' := fun h => hPlain (by simp [h])
  have hSpot : spot.after c = calm spot := after_of_not_mem (fun h => hPlain (by simp_all)) spot
  simp [IsSettled, command?_ascii hAscii, drops, isOpenFraction_cons hLetter, hSlash, hSpot]

theorem calm_calm (spot : Spot) : calm (calm spot) = calm spot := by cases spot <;> rfl

theorem isSettled_append_inert {word : Text} (hWord : ∀ c ∈ word, isInert c) (hNe : word ≠ [])
    {display slash : Bool} {spot : Spot} {rest : Text} :
    IsSettled display slash spot (word ++ rest) ↔ IsSettled display false (calm spot) rest := by
  induction word generalizing slash spot with
  | nil => exact absurd rfl hNe
  | cons c word ih =>
    rw [List.cons_append, isSettled_cons_inert (hWord c List.mem_cons_self)]
    by_cases hEmpty : word = []
    · rw [hEmpty, List.nil_append]
    · rw [ih (fun d hd => hWord d (List.mem_cons_of_mem _ hd)) hEmpty, calm_calm]

theorem isInert_of_isDelimiter {c : Char} (hc : Delimiter.isDelimiter c) : isInert c := by
  rcases Delimiter.eq_of_isDelimiter hc with rfl | rfl | rfl <;> decide

/-- A sizing command before a delimiter does not bear on what is settled. -/
theorem isSettled_command (side : Delimiter.Side) {c : Char} (hc : Delimiter.isDelimiter c)
    {display slash : Bool} {spot : Spot} {rest : Text} :
    IsSettled display slash spot (side.command ++ c :: rest) ↔
      IsSettled display slash spot (c :: rest) := by
  have hName : ∀ d ∈ side.name ++ [c], isInert d := by
    have hLetters : ∀ d ∈ side.name, isInert d := by
      refine List.all_iff_forall_prop.mp ?_
      cases side <;> decide
    intro d hd
    rcases List.mem_append.mp hd with hLetter | hDelimiter
    · exact hLetters d hLetter
    · rw [List.mem_singleton.mp hDelimiter]
      exact isInert_of_isDelimiter hc
  have hNoFraction : completesFraction (side.name ++ c :: rest) = false := by
    cases side <;> rfl
  have hDrops : drops slash spot ('\\' :: (side.name ++ c :: rest)) = false := by
    simp [drops, isOpenFraction_cons]
  have hSpot : spot.after '\\' = calm spot := after_of_not_mem (by decide) spot
  have hSplit : side.name ++ c :: rest = (side.name ++ [c]) ++ rest := by simp
  rw [isSettled_cons_inert (isInert_of_isDelimiter hc), side.command_eq, List.cons_append,
    IsSettled, hSpot, hDrops, hNoFraction]
  rw [hSplit, isSettled_append_inert hName (by simp), calm_calm]
  simp [command?_ascii]

/-- Commands before delimiters leave words without delimiters where they are. -/
theorem isPrefixOf_write {word : Text} (hWord : ∀ c ∈ word, isDelimiter c = false ∧ c ≠ '\\')
    {fitted : List Fitted} (hProper : ∀ one ∈ fitted, one.IsProper) :
    word.isPrefixOf (write fitted) = word.isPrefixOf (bareText fitted) := by
  induction word generalizing fitted with
  | nil => simp
  | cons d word ih =>
    obtain ⟨hDelimiter, hSlash⟩ := hWord d List.mem_cons_self
    cases fitted with
    | nil => rfl
    | cons one rest =>
      have hRest := @ih (fun c hc => hWord c (List.mem_cons_of_mem _ hc)) rest
        fun other hOther => hProper other (List.mem_cons_of_mem _ hOther)
      obtain ⟨mark, side⟩ := one
      cases side with
      | none =>
        rw [write_cons, bareText_cons]
        simp only [Fitted.command, Option.elim_none, List.nil_append, List.isPrefixOf_cons_cons,
          hRest]
      | some side =>
        obtain ⟨hChar, -⟩ := hProper _ List.mem_cons_self side rfl
        have hNe : d ≠ mark.char := by
          rintro rfl
          rw [hDelimiter] at hChar
          cases hChar
        rw [write_cons]
        simp [Fitted.command, side.command_eq, List.isPrefixOf, beq_false_of_ne hNe,
          beq_false_of_ne hSlash]

/-- Behind a word without delimiters, the marks go on as they did. -/
theorem exists_write_append {word : Text} (hWord : ∀ c ∈ word, isDelimiter c = false)
    {fitted : List Fitted} (hProper : ∀ one ∈ fitted, one.IsProper)
    (h : word.isPrefixOf (bareText fitted)) :
    ∃ rest : List Fitted, (∀ one ∈ rest, one.IsProper) ∧ write fitted = word ++ write rest ∧
      bareText fitted = word ++ bareText rest := by
  obtain ⟨more, hMore⟩ := Text.exists_of_isPrefixOf h
  obtain ⟨front, rest, rfl, hFront, rfl⟩ := exists_of_bareText_append hMore
  obtain ⟨hProperFront, hProperRest⟩ := List.forall_mem_append.mp hProper
  refine ⟨rest, hProperRest, ?_, hMore⟩
  rw [write_append, write_of_not_delimiter hProperFront (hFront ▸ hWord), hFront]

theorem wordEnds_write {fitted : List Fitted} (hProper : ∀ one ∈ fitted, one.IsProper) :
    wordEnds (write fitted) = wordEnds (bareText fitted) := by
  cases fitted with
  | nil => rfl
  | cons one rest =>
    obtain ⟨⟨lead, c⟩, side⟩ := one
    cases side with
    | none => rfl
    | some side =>
      have hSlash : Unicode.isWord '\\' = false := by decide +kernel
      have hDelimiter : Unicode.isWord c = false := by
        obtain ⟨hChar, -⟩ := hProper _ List.mem_cons_self side rfl
        rcases eq_of_isDelimiter hChar with rfl | rfl | rfl <;> decide +kernel
      rw [write_cons, Fitted.command, Option.elim_some, side.command_eq]
      simp [wordEnds, hSlash, hDelimiter]

theorem completesFraction_write {fitted : List Fitted} (hProper : ∀ one ∈ fitted, one.IsProper) :
    completesFraction (write fitted) =
      completesFraction (bareText fitted) := by
  have hWord : ∀ c ∈ "frac".toList, isDelimiter c = false ∧ c ≠ '\\' :=
    List.all_iff_forall_prop.mp (by decide)
  rw [completesFraction, completesFraction, isPrefixOf_write hWord hProper]
  cases hFront : "frac".toList.isPrefixOf (bareText fitted) with
  | false => rfl
  | true =>
    obtain ⟨rest, hRest, hWrite, hPlain⟩ :=
      exists_write_append (fun c hc => (hWord c hc).1) hProper hFront
    rw [hWrite, hPlain]
    exact congrArg _ (wordEnds_write hRest)

theorem brace_not_mem_command (side : Side) : '\x7d' ∉ side.command := by
  cases side <;> decide

theorem isOpenFraction_write {one : Fitted} {rest : List Fitted}
    (hProper : ∀ other ∈ rest, other.IsProper) :
    isOpenFraction (one.mark.char :: write rest) =
      isOpenFraction (one.mark.char :: bareText rest) := by
  have hWord : ∀ c ∈ "frac".toList, isDelimiter c = false ∧ c ≠ '\\' :=
    List.all_iff_forall_prop.mp (by decide)
  have hLetters : ∀ text : Text, "dfrac".toList.isPrefixOf (one.mark.char :: text) =
      ('d' == one.mark.char && "frac".toList.isPrefixOf text) := fun _ => rfl
  have hMem : '\x7d' ∈ one.mark.char :: write rest ↔
      '\x7d' ∈ one.mark.char :: bareText rest := by
    rw [List.mem_cons, List.mem_cons, mem_write_iff brace_not_mem_command]
  rw [isOpenFraction, isOpenFraction, hLetters, hLetters, isPrefixOf_write hWord hProper,
    decide_eq_decide.mpr hMem]

theorem isSettled_write {fitted : List Fitted} (hProper : ∀ one ∈ fitted, one.IsProper)
    {display slash : Bool} {spot : Spot}
    (h : IsSettled display slash spot (bareText fitted)) :
    IsSettled display slash spot (write fitted) := by
  induction fitted generalizing slash spot with
  | nil => trivial
  | cons one rest ih =>
    have hRest : ∀ other ∈ rest, other.IsProper :=
      fun other hOther => hProper other (List.mem_cons_of_mem _ hOther)
    rw [bareText_cons] at h
    rw [write_cons]
    cases hSide : one.side with
    | none =>
      obtain ⟨hCommand, hKeeps, hDisplay, hTail⟩ := h
      rw [Fitted.command, hSide]
      refine ⟨hCommand, ?_, ?_, ih hRest hTail⟩
      · rw [← hKeeps, drops, drops, isOpenFraction_write hRest]
      · rw [completesFraction_write hRest, mem_write_iff brace_not_mem_command]
        exact hDisplay
    | some side =>
      have hDelimiter := (hProper one List.mem_cons_self side hSide).1
      rw [Fitted.command, hSide, Option.elim_some, isSettled_command side hDelimiter]
      rw [isSettled_cons_inert (isInert_of_isDelimiter hDelimiter)] at h ⊢
      exact ih hRest h

/-! ## The stages -/

theorem finish_eq (settings : Settings) (text : Text) :
    finish settings text = size settings.pipeSizing
      (Script.shrink (Symbol.substitute settings.displayFractions text)) := rfl

/-- The first two stages settle the fractions of a text. -/
theorem isSettled_shrink {display : Bool} {text : Text}
    (h : display = true → NoGlyphFraction text) :
    IsSettled display false .outside (Script.shrink (Symbol.substitute display text)) := by
  rw [shrink_eq_shrunk]
  exact isSettled_shrunk (isPromoted_substitute h) false .outside

theorem isSettled_size {display : Bool} (pipes : PipeSizing) {text : Text}
    (h : IsSettled display false .outside text) :
    IsSettled display false .outside (size pipes text) := by
  rw [← write_fitText]
  apply isSettled_write isProper_of_mem_fitChunks
  exact (bareText_fitText pipes text).symm ▸ h

/-- Finishing finished markup changes nothing. -/
theorem finish_finish (settings : Settings) (text : Text)
    (hPipes : settings.pipeSizing ≠ .firstPair)
    (hGlyph : settings.displayFractions = true → NoGlyphFraction text) :
    finish settings (finish settings text) = finish settings text := by
  have hFractions : IsSettled settings.displayFractions false .outside (finish settings text) :=
    isSettled_size settings.pipeSizing (isSettled_shrink hGlyph)
  have hDelimiters : Settled settings.pipeSizing (finish settings text) := settled_size hPipes _
  have hRestore : Script.shrink
      (Symbol.substitute settings.displayFractions (finish settings text)) =
        finish settings text := by
    rw [shrink_eq_shrunk]
    exact shrunk_substitute hFractions
  rw [finish_eq settings (finish settings text), hRestore]
  exact size_eq_self_of_settled hDelimiters

/-- Settings with display fractions. -/
def displaySettings : Settings := { displayFractions := true }

theorem finish_finish_display :
    displaySettings.pipeSizing ≠ .firstPair ∧
      NoGlyphFraction "x^\x7b\\frac\x7bπ\x7d2\x7d+(\\frac∞2|x|\\\\|)".toList ∧
      finish displaySettings
          (finish displaySettings "x^\x7b\\frac\x7bπ\x7d2\x7d+(\\frac∞2|x|\\\\|)".toList) =
        "x^\x7b\\frac\x7b\\pi \x7d2\x7d+\\left(\\dfrac\\infty 2|x|\\\\|\\right)".toList := by
  refine ⟨by decide, by decide +kernel, ?_⟩
  rw [finish_finish displaySettings _ (by decide) fun _ => by decide +kernel]
  decide +kernel

end Formulary.Markup
