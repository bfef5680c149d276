import Formulary.Markup.Stage
import Formulary.Proofs.Delimiter.Fit
import Formulary.Proofs.Markup.Script
import Formulary.Proofs.Markup.Symbol
import Formulary.Proofs.Text.Open

/-!
# What the stages put in

Commands end in a letter, a space or a brace and hold no parenthesis, and the `d` of a fraction
stands before a letter. So finishing markup ends inline math in no new place
(`closesLess_finish`), and it breaks no line (`newline_not_mem_finish`).
-/

namespace Formulary.Markup

open Delimiter Script Formulary.Symbol Text

/-! ## Inline math -/

/-- A command ends no math and leaves no backslash behind. -/
theorem passes_command {c : Char} {command : Text} (h : command? c = some command)
    (slash after : Bool) : Passes command slash after := by
  have hAll : ∀ entry ∈ commands, ∀ slash after, Passes entry.2 slash after := by decide
  exact hAll _ (mem_of_command? h) slash after

theorem closesLess_spell (c : Char) : ClosesLess [c] (spell c) := by
  cases hCommand : command? c with
  | none =>
    rw [spell_of_none hCommand]
    exact .refl [c]
  | some command =>
    rw [spell, hCommand]
    exact fun slash after _ => passes_command hCommand slash after

theorem closesLess_substitute (display : Bool) (text : Text) :
    ClosesLess text (substitute display text) := by
  induction text with
  | nil => exact .refl []
  | cons c rest ih =>
    have hPromotion : KeepsOpen (promotion display c rest) := by
      rw [promotion]
      split
      · exact .of_not_mem (by decide) (by decide)
      · exact .nil
    rw [substitute_cons]
    exact (closesLess_spell c).append (ih.prepend hPromotion)

/-- Where the `d` of a fraction is left out, an `f` follows, which is read alike behind a backslash
and behind a `d`. -/
theorem closesLess_drop {rest shrunken : Text} (hFraction : isOpenFraction ('d' :: rest))
    (h : ClosesLess rest shrunken) : ClosesLess ('d' :: rest) shrunken := by
  obtain ⟨tail, hTail⟩ : ∃ tail, rest = 'f' :: tail := by
    obtain ⟨hWord, -⟩ := Bool.and_eq_true_iff.mp hFraction
    obtain ⟨after, hAfter⟩ := exists_of_isPrefixOf hWord
    exact ⟨_, (List.cons.inj hAfter).2⟩
  have hAlike : ∀ slash, slashThrough slash ('d' :: rest) = slashThrough slash rest := by
    intro slash
    rw [slashThrough_cons (.inr (by decide)), hTail, slashThrough_cons (.inr (by decide)),
      slashThrough_cons (.inr (by decide))]
  intro slash after hPasses
  rw [Passes, hAlike] at hPasses
  exact h hPasses

theorem closesLess_shrunk (slash : Bool) (spot : Spot) (text : Text) :
    ClosesLess text (shrunk slash spot text) := by
  induction text generalizing slash spot with
  | nil => exact .refl []
  | cons c rest ih =>
    by_cases hDrops : drops slash spot (c :: rest)
    · have hFraction : isOpenFraction (c :: rest) := (Bool.and_eq_true_iff.mp hDrops).2
      obtain rfl : c = 'd' := by
        by_contra hc
        rw [isOpenFraction_cons hc] at hFraction
        cases hFraction
      rw [shrunk, if_pos hDrops, List.nil_append]
      exact closesLess_drop hFraction (ih _ _)
    · rw [shrunk_cons (Bool.eq_false_of_not_eq_true hDrops)]
      exact (ClosesLess.refl [c]).append (ih _ _)

theorem keepsOpen_command (fitted : Fitted) : KeepsOpen fitted.command := by
  obtain ⟨mark, side⟩ := fitted
  cases side with
  | none => exact .nil
  | some side =>
    change KeepsOpen side.command
    cases side <;> decide

theorem closesLess_write (fitted : List Fitted) :
    ClosesLess (bareText fitted) (write fitted) := by
  induction fitted with
  | nil => exact .refl []
  | cons one rest ih =>
    have hChar : ClosesLess [one.mark.char] (one.command ++ [one.mark.char]) :=
      (ClosesLess.refl _).prepend (keepsOpen_command one)
    have hWrite := hChar.append ih
    rw [List.append_assoc] at hWrite
    rw [write_cons]
    exact hWrite

theorem closesLess_size (pipes : PipeSizing) (text : Text) :
    ClosesLess text (size pipes text) := by
  have hWrite := closesLess_write (fitText pipes text)
  rw [write_fitText, bareText_fitText] at hWrite
  exact hWrite

theorem closesLess_finish (settings : Settings) (raw : Text) :
    ClosesLess raw (finish settings raw) := by
  have hShrink : ClosesLess raw (shrink (substitute settings.displayFractions raw)) := by
    rw [shrink_eq_shrunk]
    exact (closesLess_substitute _ raw).trans (closesLess_shrunk false .outside _)
  exact hShrink.trans (closesLess_size settings.pipeSizing _)

/-! ## Lines -/

theorem newline_not_mem_substitute {display : Bool} {text : Text} (h : '\n' ∉ text) :
    '\n' ∉ substitute display text := by
  induction text with
  | nil => exact h
  | cons c rest ih =>
    obtain ⟨hc, hRest⟩ := not_or.mp (mt List.mem_cons.mpr h)
    have hSpell : '\n' ∉ spell c := by
      cases hCommand : command? c with
      | none =>
        rw [spell_of_none hCommand, List.mem_singleton]
        exact hc
      | some command =>
        have hAll : ∀ entry ∈ commands, '\n' ∉ entry.2 := by decide
        rw [spell, hCommand]
        exact hAll _ (mem_of_command? hCommand)
    have hPromotion : '\n' ∉ promotion display c rest := by
      rw [promotion]
      split <;> decide
    rw [substitute_cons, List.mem_append, List.mem_append]
    exact not_or.mpr ⟨hSpell, not_or.mpr ⟨hPromotion, ih hRest⟩⟩

theorem shrunk_sublist (slash : Bool) (spot : Spot) (text : Text) :
    (shrunk slash spot text).Sublist text := by
  induction text generalizing slash spot with
  | nil => exact List.Sublist.refl []
  | cons c rest ih =>
    rw [shrunk]
    split
    · exact (ih _ _).cons c
    · exact (ih _ _).cons_cons c

theorem newline_not_mem_finish {settings : Settings} {raw : Text} (h : '\n' ∉ raw) :
    '\n' ∉ finish settings raw := by
  have hShrink : '\n' ∉ shrink (substitute settings.displayFractions raw) := by
    rw [shrink_eq_shrunk]
    exact fun hMem => newline_not_mem_substitute h ((shrunk_sublist _ _ _).mem hMem)
  change '\n' ∉ size settings.pipeSizing _
  have hCommand : ∀ side : Side, '\n' ∉ side.command := by
    intro side
    cases side <;> decide
  rw [← write_fitText, mem_write_iff hCommand, bareText_fitText]
  exact hShrink

end Formulary.Markup
