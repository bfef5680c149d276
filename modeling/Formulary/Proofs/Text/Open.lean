import Formulary.Text.Basic
import Mathlib.Data.Bool.Basic

/-!
# Texts that keep inline math open

Inline math ends at its first `\)`, whatever stands before the backslash. `slashThrough` reads a
text from the left, remembers whether a backslash has just been passed, and fails where math would
end.

* `Passes`: read behind a backslash or not, a text ends no math and leaves no more behind than a
  bound says;
* `KeepsOpen`: wherever the text is put, math does not end in it, and it ends in a backslash only if
  it is empty and stands behind one. Such texts can be put one after the other
  (`KeepsOpen.append`);
* `ClosesLess`: a rewritten text ends math only where the text itself does, so that it keeps math
  open when the text does (`KeepsOpen.of_closesLess`).
-/

namespace Formulary.Text

/-- Whether a backslash stands right behind a text, given whether one stands before it. There is no
answer when inline math ends within the text. -/
def slashThrough : Bool → Text → Option Bool
  | slash, [] => some slash
  | slash, c :: rest =>
    if slash && c = ')' then none else slashThrough (c = '\\') rest

theorem slashThrough_append (slash : Bool) (first second : Text) :
    slashThrough slash (first ++ second) =
      (slashThrough slash first).bind fun between => slashThrough between second := by
  induction first generalizing slash with
  | nil => rfl
  | cons c rest ih =>
    rw [List.cons_append, slashThrough, slashThrough, ih]
    split <;> rfl

theorem slashThrough_cons {slash : Bool} {c : Char} (h : slash = false ∨ c ≠ ')') (rest : Text) :
    slashThrough slash (c :: rest) = slashThrough (c = '\\') rest := by
  rw [slashThrough, if_neg]
  rcases h with rfl | hc
  · simp
  · simp [hc]

theorem slashThrough_cons_eq_some {slash after : Bool} {c : Char} {rest : Text}
    (h : slashThrough slash (c :: rest) = some after) :
    (slash = false ∨ c ≠ ')') ∧ slashThrough (c = '\\') rest = some after := by
  rw [slashThrough] at h
  split at h
  · cases h
  · rename_i hOpen
    refine ⟨?_, h⟩
    by_cases hSlash : slash = false
    · exact .inl hSlash
    · exact .inr fun hc => hOpen (by simp [Bool.eq_true_of_not_eq_false hSlash, hc])

/-- Without a backslash in it, a text ends math only with its first character. -/
theorem slashThrough_of_not_mem {slash : Bool} {text : Text} (hSlash : '\\' ∉ text)
    (hNe : text ≠ []) (hFirst : slash = false ∨ text.head? ≠ some ')') :
    slashThrough slash text = some false := by
  induction text generalizing slash with
  | nil => exact absurd rfl hNe
  | cons c rest ih =>
    obtain ⟨hc, hRest⟩ := not_or.mp (mt List.mem_cons.mpr hSlash)
    have hOpen : slash = false ∨ c ≠ ')' := hFirst.imp_right fun h hEq => h (by rw [hEq]; rfl)
    rw [slashThrough_cons hOpen, decide_eq_false (Ne.symm hc)]
    cases rest with
    | nil => rfl
    | cons d rest => exact ih hRest (List.cons_ne_nil d rest) (.inl rfl)

theorem mentions_closing {slash after : Bool} {text : Text}
    (h : slashThrough slash text = some after) : mentions "\\)".toList text = false := by
  induction text generalizing slash with
  | nil => rfl
  | cons c rest ih =>
    obtain ⟨-, hRest⟩ := slashThrough_cons_eq_some h
    refine Bool.or_eq_false_iff.mpr ⟨?_, ih hRest⟩
    by_contra hFront
    obtain ⟨tail, hTail⟩ : ∃ tail, "\\)".toList ++ tail = c :: rest :=
      List.isPrefixOf_iff_prefix.mp (Bool.eq_true_of_not_eq_false hFront)
    obtain ⟨rfl, rfl⟩ := List.cons.inj hTail
    cases hRest

/-! ## Reading with a bound -/

/-- Read behind `slash`, math does not end in the text, and a backslash stands behind it only if
`after` says so. -/
def Passes (text : Text) (slash after : Bool) : Prop :=
  slashThrough slash text = some false ∨ slashThrough slash text = some after

instance (text : Text) (slash after : Bool) : Decidable (Passes text slash after) :=
  inferInstanceAs (Decidable (_ ∨ _))

namespace Passes

theorem exists_slashThrough {text : Text} {slash after : Bool} (h : Passes text slash after) :
    ∃ last ≤ after, slashThrough slash text = some last := by
  rcases h with hFalse | hAfter
  · exact ⟨false, Bool.false_le after, hFalse⟩
  · exact ⟨after, le_refl after, hAfter⟩

theorem of_slashThrough {text : Text} {slash after last : Bool} (hLast : last ≤ after)
    (h : slashThrough slash text = some last) : Passes text slash after := by
  cases last with
  | false => exact .inl h
  | true =>
    obtain rfl : after = true := hLast rfl
    exact .inr h

theorem nil (slash : Bool) : Passes [] slash slash := .inr rfl

/-- A backslash fewer before the text does no harm. -/
theorem mono {text : Text} {slash less after : Bool} (hLe : less ≤ slash)
    (h : Passes text slash after) : Passes text less after := by
  obtain ⟨last, hLast, hRead⟩ := h.exists_slashThrough
  cases text with
  | nil =>
    cases hRead
    exact of_slashThrough (le_trans hLe hLast) rfl
  | cons c rest =>
    obtain ⟨hOpen, hRest⟩ := slashThrough_cons_eq_some hRead
    have hLess : less = false ∨ c ≠ ')' := hOpen.imp_left fun hSlash => by
      rw [hSlash] at hLe
      exact Bool.eq_false_of_le_false hLe
    exact of_slashThrough hLast (by rw [slashThrough_cons hLess, hRest])

theorem append {first second : Text} {slash between after : Bool}
    (hFirst : Passes first slash between) (hSecond : Passes second between after) :
    Passes (first ++ second) slash after := by
  obtain ⟨last, hLast, hRead⟩ := hFirst.exists_slashThrough
  obtain ⟨behind, hBehind, hRest⟩ := (hSecond.mono hLast).exists_slashThrough
  refine of_slashThrough hBehind ?_
  rw [slashThrough_append, hRead, Option.bind_some, hRest]

theorem exists_between {first second : Text} {slash after : Bool}
    (h : Passes (first ++ second) slash after) :
    ∃ between, Passes first slash between ∧ Passes second between after := by
  obtain ⟨last, hLast, hRead⟩ := h.exists_slashThrough
  rw [slashThrough_append] at hRead
  obtain ⟨between, hFirst, hSecond⟩ := Option.bind_eq_some_iff.mp hRead
  exact ⟨between, .inr hFirst, of_slashThrough hLast hSecond⟩

/-- Without a backslash in it, a text ends math at most with its first character. -/
theorem of_not_mem {text : Text} {slash : Bool} (hSlash : '\\' ∉ text)
    (hFirst : slash = false ∨ text.head? ≠ some ')') : Passes text slash slash := by
  by_cases hNe : text = []
  · rw [hNe]
    exact nil slash
  · exact .inl (slashThrough_of_not_mem hSlash hNe hFirst)

theorem mentions {text : Text} {slash after : Bool} (h : Passes text slash after) :
    mentions "\\)".toList text = false := by
  obtain ⟨last, -, hRead⟩ := h.exists_slashThrough
  exact mentions_closing hRead

end Passes

/-! ## Keeping math open -/

/-- Math does not end in the text, whatever stands before it, and a backslash stands behind it only
if one stands before it. -/
def KeepsOpen (text : Text) : Prop := ∀ slash, Passes text slash slash

instance (text : Text) : Decidable (KeepsOpen text) :=
  decidable_of_iff (Passes text true true ∧ Passes text false false)
    ⟨fun h slash => by cases slash <;> simp only [h], fun h => ⟨h true, h false⟩⟩

theorem KeepsOpen.nil : KeepsOpen [] := Passes.nil

theorem KeepsOpen.append {first second : Text} (hFirst : KeepsOpen first)
    (hSecond : KeepsOpen second) : KeepsOpen (first ++ second) :=
  fun slash => (hFirst slash).append (hSecond slash)

theorem KeepsOpen.of_not_mem {text : Text} (hSlash : '\\' ∉ text)
    (hFirst : text.head? ≠ some ')') : KeepsOpen text :=
  fun _ => .of_not_mem hSlash (.inr hFirst)

/-! ## Rewriting -/

/-- The second text ends math at most where the first does. -/
def ClosesLess (first second : Text) : Prop :=
  ∀ ⦃slash after : Bool⦄, Passes first slash after → Passes second slash after

theorem ClosesLess.refl (text : Text) : ClosesLess text text := fun _ _ => id

theorem ClosesLess.trans {first second third : Text} (hFirst : ClosesLess first second)
    (hSecond : ClosesLess second third) : ClosesLess first third :=
  fun _ _ h => hSecond (hFirst h)

theorem ClosesLess.append {first first' second second' : Text} (hFirst : ClosesLess first first')
    (hSecond : ClosesLess second second') : ClosesLess (first ++ second) (first' ++ second') := by
  intro slash after h
  obtain ⟨between, hBefore, hBehind⟩ := h.exists_between
  exact (hFirst hBefore).append (hSecond hBehind)

/-- A text may be put before that keeps math open. -/
theorem ClosesLess.prepend {first second : Text} (h : ClosesLess first second) {word : Text}
    (hWord : KeepsOpen word) : ClosesLess first (word ++ second) :=
  fun slash _ hFirst => (hWord slash).append (h hFirst)

theorem KeepsOpen.of_closesLess {first second : Text} (hFirst : KeepsOpen first)
    (h : ClosesLess first second) : KeepsOpen second :=
  fun slash => h (hFirst slash)

end Formulary.Text
