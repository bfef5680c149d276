import Formulary.Proofs.Text.Template

/-!
# Names within values

Arguments are put in one after the other, and each looks for its name in the whole text that the
ones before have left. A value that mentions the name of a later argument is captured by it, unless
only first occurrences are filled and the template's own placeholder stands before. `IsCaptured`
says when this happens to some value, and `exists_isCut_fill_iff` that exactly then filling differs
from putting all values into the slots of the template at once.
-/

namespace Formulary.Placeholder

open Text

/-- Some argument captures the value of an earlier one: it finds its name in the value of a slot,
and where only first occurrences are filled, its own slot does not stand before. -/
def IsCaptured (mode : Substitution) (count : Nat) (value : Nat → Text) (parts : List Part) :
    Prop :=
  ∃ first earlier second later, parts = first ++ .slot earlier :: second ∧
    earlier < later ∧ later ≤ count ∧ mentions (name later) (value earlier) ∧
      (mode = .first → .slot later ∉ first)

theorem slotsOf_append (first second : List Part) :
    slotsOf (first ++ second) = slotsOf first ++ slotsOf second :=
  List.filterMap_append

/-- A slot among the positions is a slot among the parts. -/
theorem exists_of_slotsOf_eq {parts : List Part} {before after : List Nat} {position : Nat}
    (h : slotsOf parts = before ++ position :: after) :
    ∃ first second, parts = first ++ .slot position :: second ∧ slotsOf first = before := by
  induction parts generalizing before with
  | nil => cases before <;> cases h
  | cons part parts ih =>
    cases part with
    | prose run =>
      obtain ⟨first, second, rfl, rfl⟩ := ih h
      exact ⟨.prose run :: first, second, rfl, rfl⟩
    | slot other =>
      rw [slotsOf_slot] at h
      cases before with
      | nil =>
        obtain ⟨rfl, -⟩ := List.cons.inj h
        exact ⟨[], parts, rfl, rfl⟩
      | cons head before =>
        obtain ⟨rfl, hTail⟩ := List.cons.inj h
        obtain ⟨first, second, rfl, rfl⟩ := ih hTail
        exact ⟨.slot other :: first, second, rfl, rfl⟩

theorem isCaptured_iff {mode : Substitution} {count : Nat} {value : Nat → Text}
    {parts : List Part} : IsCaptured mode count value parts ↔
      ∃ last < count, Catches mode value last (slotsOf parts) := by
  constructor
  · rintro ⟨first, earlier, second, later, rfl, hLt, hLe, hMentions, hFirst⟩
    obtain ⟨last, rfl⟩ : ∃ last, later = last + 1 := ⟨later - 1, by omega⟩
    refine ⟨last, hLe, slotsOf first, earlier, slotsOf second, ?_, by omega, ?_, hMentions⟩
    · rw [slotsOf_append, slotsOf_slot]
    · exact fun hMode hMem => hFirst hMode (mem_slotsOf.mp hMem)
  · rintro ⟨last, hLast, before, earlier, after, hSlots, hLe, hFirst, hMentions⟩
    obtain ⟨first, second, rfl, rfl⟩ := exists_of_slotsOf_eq hSlots
    refine ⟨first, earlier, second, last + 1, rfl, by omega, hLast, hMentions, ?_⟩
    exact fun hMode hMem => hFirst hMode (mem_slotsOf.mpr hMem)

/-- Filling a template is cutting it at its slots and putting the values there, exactly when no
value is captured. -/
theorem exists_isCut_fill_iff (mode : Substitution) {values : List Text}
    (hCount : values.length < 10) (hValues : ∀ value ∈ values, IsWrapped value) (template : Text) :
    ∃ parts, IsCut mode values.length template parts ∧
      (fill mode values template = parts.flatMap (Part.fill (valueAt values)) ↔
        ¬ IsCaptured mode values.length (valueAt values) parts) := by
  obtain ⟨parts, hParts⟩ := exists_reading mode values.length [] template
  obtain ⟨strayed, hCourse, hIff⟩ := hParts.course_fill hCount hValues
  refine ⟨join parts, hParts.isCut hCount, ?_⟩
  rw [isCaptured_iff, slotsOf_join, ← hIff, flatMap_join (fun _ _ => rfl), ← hParts.stageOf_count]
  cases strayed with
  | false => exact iff_of_true hCourse.eq_stageOf (by decide)
  | true => exact iff_of_false hCourse.ne_stageOf (by decide)

end Formulary.Placeholder
