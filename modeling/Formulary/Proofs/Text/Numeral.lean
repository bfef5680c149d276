import Formulary.Text.Basic

/-!
# Decimal numerals

The numeral of a count consists of digits (`isDigit_of_mem_ofNat`), is read back as the count
(`ofDigitChars_ofNat`) and begins with a zero for zero only (`head?_ofNat_ne`). Digits that are read
behind others never make the number smaller (`le_ofDigitChars`), and their number bounds it
(`ofDigitChars_lt`).
-/

namespace Formulary.Text

theorem isDigit_of_mem_ofNat {c : Char} {n : Nat} (h : c ∈ ofNat n) : c.isDigit :=
  Nat.isDigit_of_mem_toDigits (by decide) (by decide) h

theorem exists_ofNat_eq_cons (n : Nat) : ∃ c digits, ofNat n = c :: digits ∧ c.isDigit := by
  obtain ⟨c, digits, hDigits⟩ : ∃ c digits, ofNat n = c :: digits :=
    List.exists_cons_of_ne_nil Nat.toDigits_ne_nil
  exact ⟨c, digits, hDigits, isDigit_of_mem_ofNat (hDigits.symm ▸ List.mem_cons_self)⟩

theorem ofDigitChars_ofNat (n : Nat) : Nat.ofDigitChars 10 (ofNat n) 0 = n :=
  Nat.ofDigitChars_toDigits (by decide) (by decide)

theorem le_ofDigitChars (digits : Text) (n : Nat) : n ≤ Nat.ofDigitChars 10 digits n := by
  induction digits generalizing n with
  | nil => exact Nat.le_refl n
  | cons c digits ih =>
    rw [Nat.ofDigitChars_cons]
    have hRest := ih (10 * n + (c.toNat - '0'.toNat))
    omega

/-- So many digits denote less than that power of ten. -/
theorem ofDigitChars_lt {digits : Text} (h : ∀ c ∈ digits, c.isDigit) (n : Nat) :
    Nat.ofDigitChars 10 digits n < Nat.pow 10 digits.length * (n + 1) := by
  induction digits generalizing n with
  | nil => simp [Nat.ofDigitChars_nil]
  | cons c digits ih =>
    have hDigit : c.toNat - '0'.toNat < 10 := by
      have hc := h c List.mem_cons_self
      simp only [Char.isDigit, Bool.and_eq_true, decide_eq_true_eq] at hc
      have hMost : c.toNat ≤ 57 := hc.2
      have hZero : '0'.toNat = 48 := rfl
      omega
    have hRest := ih (fun d hd => h d (List.mem_cons_of_mem _ hd)) (10 * n + (c.toNat - '0'.toNat))
    rw [Nat.ofDigitChars_cons, List.length_cons, Nat.pow_eq, Nat.pow_succ, Nat.mul_assoc]
    exact Nat.lt_of_lt_of_le hRest (Nat.mul_le_mul_left _ (by omega))

theorem head?_ofNat_ne {n : Nat} (h : 0 < n) : (ofNat n).head? ≠ some '0' := by
  induction n using Nat.strongRecOn with
  | ind n ih =>
    rw [ofNat, Nat.toDigits_eq_if (by decide)]
    split
    · rename_i hOne
      have hAll : ∀ n < 10, 0 < n → [Nat.digitChar n].head? ≠ some '0' := by decide
      exact hAll n hOne h
    · have hFront : (ofNat (n / 10)).head? ≠ some '0' := ih (n / 10) (by omega) (by omega)
      obtain ⟨c, digits, hDigits, -⟩ := exists_ofNat_eq_cons (n / 10)
      rw [hDigits] at hFront
      change (ofNat (n / 10) ++ _).head? ≠ _
      rw [hDigits]
      exact hFront

end Formulary.Text
