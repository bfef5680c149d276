import Formulary.Proofs.Text.Search
import Formulary.Render.Layout
import Mathlib.Data.Bool.AllAny

/-!
# The characters of values

A value is written with braces around its indices or for its point, or as prose, and a repeating
decimal with parentheses around its period. Nothing else is put in (`mem_write`, `mem_format`), and
a text begins as its value does unless something was put before it.
-/

namespace Formulary

open Text

/-! ## Characters -/

theorem mem_replaceFirst {word value text : Text} {c : Char}
    (h : c ∈ replaceFirst word value text) : c ∈ value ∨ c ∈ text := by
  induction text with
  | nil => exact .inr h
  | cons d rest ih =>
    rw [replaceFirst] at h
    split at h
    · exact (List.mem_append.mp h).imp_right List.mem_of_mem_drop
    · rcases List.mem_cons.mp h with rfl | hRest
      · exact .inr List.mem_cons_self
      · exact (ih hRest).imp_right (List.mem_cons_of_mem d)

theorem exists_of_replaceFirst (word value text : Text) : replaceFirst word value text = text ∨
    ∃ front back, text = front ++ word ++ back ∧
      replaceFirst word value text = front ++ value ++ back := by
  induction text with
  | nil => exact .inl rfl
  | cons c rest ih =>
    rw [replaceFirst]
    split
    · rename_i hFront
      obtain ⟨back, hBack⟩ := exists_of_isPrefixOf hFront
      refine .inr ⟨[], back, by simpa using hBack, ?_⟩
      rw [hBack, List.drop_left]
      rfl
    · rcases ih with hSame | ⟨front, back, hRest, hReplaced⟩
      · exact .inl (by rw [hSame])
      · exact .inr ⟨c :: front, back, by rw [hRest]; rfl, by rw [hReplaced]; rfl⟩

theorem mem_braceIndicesFrom {spot : IndexSpot} {text : Text} {c : Char}
    (h : c ∈ braceIndicesFrom spot text) : c ∈ text ∨ c = '\x7b' ∨ c = '\x7d' := by
  induction text generalizing spot with
  | nil =>
    cases spot with
    | inside => exact .inr (.inr (List.mem_singleton.mp h))
    | outside => cases h
    | behind => cases h
  | cons d rest ih =>
    have hLater : ∀ spot, c ∈ d :: braceIndicesFrom spot rest →
        c ∈ d :: rest ∨ c = '\x7b' ∨ c = '\x7d' := by
      intro spot hMem
      rcases List.mem_cons.mp hMem with rfl | hRest
      · exact .inl List.mem_cons_self
      · exact (ih hRest).imp_left (List.mem_cons_of_mem d)
    cases spot with
    | outside => exact hLater _ h
    | behind =>
      rw [braceIndicesFrom] at h
      split at h
      · rcases List.mem_cons.mp h with rfl | hRest
        · exact .inr (.inl rfl)
        · exact hLater _ hRest
      · exact hLater _ h
    | inside =>
      rw [braceIndicesFrom] at h
      split at h
      · exact hLater _ h
      · rcases List.mem_cons.mp h with rfl | hRest
        · exact .inr (.inr rfl)
        · exact hLater _ hRest

theorem slash_not_mem_braceIndices {text : Text} (h : '\\' ∉ text) : '\\' ∉ braceIndices text := by
  intro hMem
  rcases mem_braceIndicesFrom hMem with hText | hBrace | hBrace
  · exact h hText
  · cases hBrace
  · cases hBrace

theorem head?_braceIndices (text : Text) : (braceIndices text).head? = text.head? := by
  cases text <;> rfl

theorem head?_replaceFirst {word value text : Text} {c : Char}
    (h : (replaceFirst word value text).head? = some c) :
    (value ++ text.drop word.length).head? = some c ∨ text.head? = some c := by
  cases text with
  | nil => cases h
  | cons d rest =>
    rw [replaceFirst] at h
    split at h
    · exact .inl h
    · exact .inr h

/-- A form adds braces, a space, a comma and the command for prose. -/
theorem mem_write {form : ValueForm} {text : Text} {c : Char} (h : c ∈ form.write text) :
    c ∈ text ∨ c ∈ "\\text ,".toList ++ braced [] := by
  have hProse : ∀ word : Text, c ∈ "\\text".toList ++ braced word →
      c ∈ word ∨ c ∈ "\\text ,".toList ++ braced [] := by
    intro word hMem
    have hAdded : ∀ d ∈ "\\text".toList ++ braced [], d ∈ "\\text ,".toList ++ braced [] :=
      List.all_iff_forall_prop.mp (by decide)
    rcases List.mem_append.mp hMem with hCommand | hBraced
    · exact .inr (hAdded c (List.mem_append_left _ hCommand))
    · rcases List.mem_append.mp hBraced with hOpen | hClose
      · rcases List.mem_cons.mp hOpen with rfl | hWord
        · exact .inr (by decide)
        · exact .inl hWord
      · exact .inr (hAdded c (List.mem_append_right _ (List.mem_cons_of_mem _ hClose)))
  match form with
  | .words => exact hProse text h
  | .unit =>
    rcases hProse (' ' :: text) h with hMem | hCommand
    · rcases List.mem_cons.mp hMem with rfl | hText
      · exact .inr (by decide)
      · exact .inl hText
    · exact .inr hCommand
  | .variable => exact (mem_braceIndicesFrom h).imp_right (by rintro (rfl | rfl) <;> decide)
  | .constant =>
    have hAdded : ∀ d ∈ Repeating.comma, d ∈ "\\text ,".toList ++ braced [] :=
      List.all_iff_forall_prop.mp (by decide)
    exact (mem_replaceFirst h).symm.imp_right (hAdded c)

/-! ## Repeating decimals -/

theorem parts_eq (decimal : Text) : decimal = (Repeating.parts decimal).1 ∧
    (Repeating.parts decimal).2 = [] ∨
      decimal = (Repeating.parts decimal).1 ++ '.' :: (Repeating.parts decimal).2 := by
  unfold Repeating.parts
  cases hCut : cutAt '.' decimal with
  | none => exact .inl ⟨rfl, rfl⟩
  | some parts => exact .inr (cutAt_eq_some hCut).1

theorem mem_format {decimal markup : Text} {count : Nat} {c : Char}
    (h : Repeating.format decimal count = .ok markup) (hc : c ∈ markup) :
    c ∈ decimal ∨ c ∈ Repeating.comma ++ "()".toList := by
  have hParts : c ∈ (Repeating.parts decimal).1 ∨ c ∈ (Repeating.parts decimal).2 →
      c ∈ decimal := by
    rcases parts_eq decimal with ⟨hEq, hNil⟩ | hEq
    · rw [hNil, ← hEq]
      simp
    · intro hEither
      rw [hEq]
      exact List.mem_append.mpr (hEither.imp_right (List.mem_cons_of_mem _))
  simp only [Repeating.format] at h
  split at h
  · cases h
  · cases h
    simp only [List.mem_append, List.mem_cons, List.not_mem_nil, or_false] at hc
    rcases hc with (((hWhole | hComma) | hFront) | rfl | hBack) | rfl
    · exact .inl (hParts (.inl hWhole))
    · exact .inr (List.mem_append_left _ hComma)
    · exact .inl (hParts (.inr (List.mem_of_mem_take hFront)))
    · exact .inr (by decide)
    · exact .inl (hParts (.inr (List.mem_of_mem_drop hBack)))
    · exact .inr (by decide)

end Formulary
