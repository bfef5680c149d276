import Formulary.Proofs.Text.Token
import Mathlib.Data.List.Forall2

/-!
# Binding placeholders by number

A placeholder is meant for the argument whose position is the number behind its letters, all digits
read together: `bindTokens` puts the values there. Filling a template agrees with it exactly when no
position that is still free is mistaken, at some placeholder, for the beginning of a longer numeral
or for another spelling of its number (`IsClear`). With ten arguments the placeholder `ARG10` is
filled by the first one, and a zero is left behind the value.

* `fillTokens_eq_bindTokens`: from a clear template, step by step;
* `exists_left_of_ne`: a name that is mistaken leaves digits, and no later step removes them;
* `eq_of_write_eq`: tokens can be told from what they are written as, read from the right;
* `fill_eq_bind_iff`: the characterisation.
-/

namespace Formulary.Placeholder

open Text

/-- The number that digits are read as. -/
def number (digits : Text) : Nat := Nat.ofDigitChars 10 digits 0

/-- The numbers of the placeholders among tokens. -/
def numbers (tokens : List Token) : List Nat :=
  tokens.filterMap fun token =>
    match token with
    | .placeholder digits => some (number digits)
    | _ => none

/-- Put values in the place of the placeholders whose number is the position of an argument: of all
of them, or of the first one of each number. The tokens before bear on which one is the first. -/
def bindTokens (mode : Substitution) (count : Nat) (before : List Token) :
    List Token → List Token
  | [] => []
  | .placeholder digits :: rest =>
    (if IsFree mode count (numbers before) (number digits) then .value (number digits) []
      else .placeholder digits) :: bindTokens mode count (before ++ [.placeholder digits]) rest
  | token :: rest => token :: bindTokens mode count (before ++ [token]) rest

/-- Where the argument of a position is still to be put in, a placeholder that begins with the
numeral of the position, or has its number, has no other digits than the numeral. -/
def IsClear (mode : Substitution) (count : Nat) (tokens : List Token) : Prop :=
  ∀ first digits second position, tokens = first ++ .placeholder digits :: second →
    IsFree mode count (numbers first) position →
    (ofNat position).isPrefixOf digits ∨ number digits = position → digits = ofNat position

/-! ## Numbers -/

@[simp] theorem number_ofNat (position : Nat) : number (ofNat position) = position :=
  ofDigitChars_ofNat position

theorem le_of_isPrefixOf_ofNat {i j : Nat} (h : (ofNat i).isPrefixOf (ofNat j)) : i ≤ j := by
  obtain ⟨rest, hRest⟩ := exists_of_isPrefixOf h
  have hNumber := congrArg number hRest
  rw [number_ofNat, number, Nat.ofDigitChars_append] at hNumber
  change j = Nat.ofDigitChars 10 rest (number (ofNat i)) at hNumber
  rw [number_ofNat] at hNumber
  exact hNumber ▸ le_ofDigitChars rest i

@[simp] theorem numbers_append (first second : List Token) :
    numbers (first ++ second) = numbers first ++ numbers second :=
  List.filterMap_append

@[simp] theorem numbers_placeholder (digits : Text) :
    numbers [.placeholder digits] = [number digits] := rfl

@[simp] theorem numbers_char (c : Char) : numbers [.char c] = [] := rfl

theorem number_mem_numbers {digits : Text} {tokens : List Token}
    (h : .placeholder digits ∈ tokens) : number digits ∈ numbers tokens :=
  List.mem_filterMap.mpr ⟨.placeholder digits, h, rfl⟩

/-! ## Clear templates -/

theorem IsFree.mono {mode : Substitution} {count more : Nat} (hLe : count ≤ more)
    {seen : List Nat} {position : Nat} (h : IsFree mode count seen position) :
    IsFree mode more seen position :=
  ⟨h.1, h.2.1.trans hLe, h.2.2⟩

/-- A further argument leaves the other positions as free as they are. -/
theorem isFree_succ {mode : Substitution} {count : Nat} {seen : List Nat} {position : Nat}
    (hNe : position ≠ count + 1) :
    IsFree mode (count + 1) seen position ↔ IsFree mode count seen position := by
  refine ⟨fun hFree => ⟨hFree.1, ?_, hFree.2.2⟩, IsFree.mono (Nat.le_succ count)⟩
  have hLe := hFree.2.1
  omega

theorem IsClear.mono {mode : Substitution} {count more : Nat} (hLe : count ≤ more)
    {tokens : List Token} (h : IsClear mode more tokens) : IsClear mode count tokens :=
  fun first digits second position hTokens hFree =>
    h first digits second position hTokens (hFree.mono hLe)

theorem mem_numbers_append {position : Nat} {before : List Token}
    (h : position ∈ numbers before) (more : List Token) : position ∈ numbers (before ++ more) := by
  rw [numbers_append]
  exact List.mem_append_left _ h

/-- A position that is seen already is the first one of its number nowhere behind. -/
theorem bindTokens_succ_of_mem {count : Nat} {before tokens : List Token}
    (h : count + 1 ∈ numbers before) :
    bindTokens .first (count + 1) before tokens = bindTokens .first count before tokens := by
  fun_induction bindTokens .first count before tokens with
  | case1 => rfl
  | case2 before digits rest ih =>
    have hFree : IsFree .first (count + 1) (numbers before) (number digits) ↔
        IsFree .first count (numbers before) (number digits) := by
      by_cases hEq : number digits = count + 1
      · rw [hEq]
        exact iff_of_false (fun hFree => hFree.2.2 rfl h) fun hFree => hFree.2.2 rfl h
      · exact isFree_succ hEq
    rw [bindTokens, ih (mem_numbers_append h _)]
    simp only [hFree]
  | case3 before token rest hToken ih =>
    rw [bindTokens, ih (mem_numbers_append h _)]
    exact hToken

/-- The next step takes a placeholder that is spelled as its position. -/
theorem putTokens_bindTokens_here {mode : Substitution} {count : Nat} {before after : List Token}
    {digits : Text} (hDigits : digits = ofNat (count + 1))
    (hSeen : mode = .first → count + 1 ∉ numbers before)
    (hRest : mode = .all →
      putTokens mode (count + 1) (bindTokens mode count (before ++ [.placeholder digits]) after) =
        bindTokens mode (count + 1) (before ++ [.placeholder digits]) after) :
    putTokens mode (count + 1) (bindTokens mode count before (.placeholder digits :: after)) =
      bindTokens mode (count + 1) before (.placeholder digits :: after) := by
  have hNumber : number digits = count + 1 := by rw [hDigits, number_ofNat]
  have hFree : IsFree mode (count + 1) (numbers before) (number digits) := by
    rw [hNumber]
    exact ⟨Nat.le_add_left 1 count, Nat.le_refl _, hSeen⟩
  have hNot : ¬ IsFree mode count (numbers before) (number digits) := fun hFree =>
    absurd hFree.2.1 (by omega)
  have hFront : (ofNat (count + 1)).isPrefixOf digits := by
    rw [hDigits, isPrefixOf_ofNat_iff, List.drop_length, List.append_nil]
  rw [bindTokens, bindTokens, if_neg hNot, if_pos hFree, putTokens, if_pos hFront, hNumber]
  congr 1
  · rw [hDigits, List.drop_length]
  · cases mode with
    | first =>
      have hMem : count + 1 ∈ numbers (before ++ [.placeholder digits]) := by simp [hNumber]
      exact (bindTokens_succ_of_mem hMem).symm
    | all => exact hRest rfl

/-- The next step passes over any other placeholder that does not begin with its numeral. -/
theorem putTokens_bindTokens_other {mode : Substitution} {count : Nat} {before after : List Token}
    {digits : Text} (hNumber : number digits ≠ count + 1)
    (hFront : ¬ (ofNat (count + 1)).isPrefixOf digits)
    (hRest : putTokens mode (count + 1)
        (bindTokens mode count (before ++ [.placeholder digits]) after) =
      bindTokens mode (count + 1) (before ++ [.placeholder digits]) after) :
    putTokens mode (count + 1) (bindTokens mode count before (.placeholder digits :: after)) =
      bindTokens mode (count + 1) before (.placeholder digits :: after) := by
  rw [bindTokens, bindTokens, ← hRest]
  simp only [isFree_succ hNumber]
  split
  · rw [putTokens]
    rintro digits ⟨⟩
  · rw [putTokens, if_neg hFront]

/-- One step: in a clear template the next name is found where its number is. -/
theorem putTokens_bindTokens {mode : Substitution} {count : Nat} {before after : List Token}
    (hClear : IsClear mode (count + 1) (before ++ after))
    (hNone : ∀ position left, .value position left ∉ after)
    (hSeen : mode = .first → count + 1 ∉ numbers before) :
    putTokens mode (count + 1) (bindTokens mode count before after) =
      bindTokens mode (count + 1) before after := by
  induction after generalizing before with
  | nil => rfl
  | cons token after ih =>
    have hNext : IsClear mode (count + 1) (before ++ [token] ++ after) := by
      rwa [List.append_cons] at hClear
    have hRest : ∀ position left, .value position left ∉ after :=
      fun position left hMem => hNone position left (List.mem_cons_of_mem _ hMem)
    cases token with
    | char c =>
      have hLater := ih hNext hRest fun hMode => by simpa using hSeen hMode
      simp only [bindTokens, putTokens, hLater]
    | value position left => exact absurd List.mem_cons_self (hNone position left)
    | placeholder digits =>
      have hHere := hClear before digits after (count + 1) rfl
        ⟨Nat.le_add_left 1 count, Nat.le_refl _, hSeen⟩
      by_cases hNumber : number digits = count + 1
      · refine putTokens_bindTokens_here (hHere (.inr hNumber)) hSeen fun hAll => ?_
        refine ih hNext hRest fun hMode => ?_
        rw [hAll] at hMode
        cases hMode
      · have hFront : ¬ (ofNat (count + 1)).isPrefixOf digits := by
          intro hFront
          rw [hHere (.inl hFront), number_ofNat] at hNumber
          exact hNumber rfl
        refine putTokens_bindTokens_other hNumber hFront (ih hNext hRest fun hMode => ?_)
        simpa [Ne.symm hNumber] using hSeen hMode

theorem bindTokens_zero (mode : Substitution) (before tokens : List Token) :
    bindTokens mode 0 before tokens = tokens := by
  fun_induction bindTokens mode 0 before tokens with
  | case1 => rfl
  | case2 before digits rest ih =>
    have hNot : ¬ IsFree mode 0 (numbers before) (number digits) := fun hFree =>
      absurd (hFree.1.trans hFree.2.1) (by decide)
    rw [if_neg hNot, ih]
  | case3 before token rest hToken ih => rw [ih]

/-- All steps: a clear template is filled number by number. -/
theorem fillTokens_eq_bindTokens {mode : Substitution} {count : Nat} {tokens : List Token}
    (hClear : IsClear mode count tokens) (hNone : ∀ position left, .value position left ∉ tokens) :
    fillTokens mode count tokens = bindTokens mode count [] tokens := by
  induction count with
  | zero => exact (bindTokens_zero mode [] tokens).symm
  | succ count ih =>
    rw [fillTokens, ih (hClear.mono (Nat.le_succ count))]
    exact putTokens_bindTokens hClear hNone fun _ => List.not_mem_nil

/-! ## Digits that are left behind -/

theorem mem_putTokens_of_mem {mode : Substitution} {position other : Nat} {left : Text}
    {tokens : List Token} (h : .value other left ∈ tokens) :
    .value other left ∈ putTokens mode position tokens := by
  fun_induction putTokens mode position tokens with
  | case1 => exact h
  | case2 digits rest hFront ih =>
    have hTail : .value other left ∈ rest := by simpa using h
    apply List.mem_cons_of_mem
    split
    · exact hTail
    · exact ih hTail
  | case3 digits rest hFront ih =>
    have hTail : .value other left ∈ rest := by simpa using h
    exact List.mem_cons_of_mem _ (ih hTail)
  | case4 token rest hToken ih =>
    rcases List.mem_cons.mp h with hHead | hTail
    · exact hHead ▸ List.mem_cons_self
    · exact List.mem_cons_of_mem _ (ih hTail)

/-- No later step removes the digits behind a value. -/
theorem mem_fillTokens_of_le {mode : Substitution} {last count position : Nat} {left : Text}
    {tokens : List Token} (hLe : last ≤ count)
    (h : .value position left ∈ fillTokens mode last tokens) :
    .value position left ∈ fillTokens mode count tokens := by
  induction count, hLe using Nat.le_induction with
  | base => exact h
  | succ count hLe ih => exact mem_putTokens_of_mem ih

/-- A step leaves digits where the name is found at the front of a longer numeral. -/
theorem exists_left_putTokens {mode : Substitution} {position : Nat} {digits : Text}
    {first : List Token} (second : List Token) (hFront : (ofNat position).isPrefixOf digits)
    (hNe : digits ≠ ofNat position)
    (hSeen : mode = .first → .placeholder (ofNat position) ∉ first) :
    ∃ left, left ≠ [] ∧
      .value position left ∈ putTokens mode position (first ++ .placeholder digits :: second) := by
  have hLeft : ∀ digits, (ofNat position).isPrefixOf digits → digits ≠ ofNat position →
      digits.drop (ofNat position).length ≠ [] := by
    intro digits hFront hNe hNil
    refine hNe ?_
    rw [← isPrefixOf_ofNat_iff.mp hFront, hNil, List.append_nil]
  induction first with
  | nil =>
    refine ⟨_, hLeft digits hFront hNe, ?_⟩
    rw [List.nil_append, putTokens, if_pos hFront]
    exact List.mem_cons_self
  | cons token first ih =>
    obtain ⟨left, hNonempty, hMem⟩ := ih fun hMode hMem => hSeen hMode (List.mem_cons_of_mem _ hMem)
    have hLater := List.mem_cons_of_mem token hMem
    rw [List.cons_append]
    cases token with
    | char c => exact ⟨left, hNonempty, List.mem_cons_of_mem _ hMem⟩
    | value other digits => exact ⟨left, hNonempty, List.mem_cons_of_mem _ hMem⟩
    | placeholder other =>
      rw [putTokens]
      split
      next hHit =>
        cases mode with
        | first =>
          have hOther : other ≠ ofNat position := fun hEq =>
            hSeen rfl (hEq ▸ List.mem_cons_self)
          exact ⟨_, hLeft other hHit hOther, List.mem_cons_self⟩
        | all => exact ⟨left, hNonempty, List.mem_cons_of_mem _ hMem⟩
      next => exact ⟨left, hNonempty, List.mem_cons_of_mem _ hMem⟩

/-- A name that is mistaken for the beginning of a longer numeral leaves digits behind a value. -/
theorem exists_left_of_ne {mode : Substitution} {count position : Nat} {digits : Text}
    {first second : List Token}
    (hNone : ∀ position left, .value position left ∉ first ++ .placeholder digits :: second)
    (hFree : IsFree mode count (numbers first) position)
    (hFront : (ofNat position).isPrefixOf digits) (hNe : digits ≠ ofNat position) :
    ∃ other left, left ≠ [] ∧
      .value other left ∈ fillTokens mode count (first ++ .placeholder digits :: second) := by
  obtain ⟨last, rfl⟩ : ∃ last, position = last + 1 := ⟨position - 1, by have := hFree.1; omega⟩
  have hOrigin := map_origin_fillTokens mode last (first ++ .placeholder digits :: second)
  rw [map_origin_of_none hNone] at hOrigin
  obtain ⟨filled, rest, hFilled, hFirst, hRest⟩ := List.map_eq_append_iff.mp hOrigin
  obtain ⟨token, after, rfl, hToken, -⟩ := List.map_eq_cons_iff.mp hRest
  cases token with
  | char c => cases hToken
  | value other left =>
    obtain rfl : ofNat other ++ left = digits := Token.placeholder.inj hToken
    have hMem : .value other left ∈ fillTokens mode last
        (first ++ .placeholder (ofNat other ++ left) :: second) := by
      rw [hFilled]
      exact List.mem_append_right _ List.mem_cons_self
    refine ⟨other, left, ?_, mem_fillTokens_of_le (Nat.le_of_lt hFree.2.1) hMem⟩
    rintro rfl
    rw [List.append_nil] at hFront
    have hLe := le_of_isPrefixOf_ofNat hFront
    have hBound := (bounds_of_mem_fillTokens hNone hMem).2
    omega
  | placeholder digits' =>
    obtain rfl : digits' = digits := Token.placeholder.inj hToken
    have hSeen : mode = .first → .placeholder (ofNat (last + 1)) ∉ filled := by
      intro hMode hMem
      refine hFree.2.2 hMode ?_
      have hMem' := number_mem_numbers (hFirst ▸ List.mem_map_of_mem (f := Token.origin) hMem)
      rw [number_ofNat] at hMem'
      exact hMem'
    obtain ⟨left, hLeft, hMem⟩ := exists_left_putTokens after hFront hNe hSeen
    rw [← hFilled] at hMem
    exact ⟨last + 1, left, hLeft, mem_fillTokens_of_le hFree.2.1 hMem⟩

/-- Behind a value that is bound by number no digits are left. -/
theorem left_of_mem_bindTokens {mode : Substitution} {count position : Nat} {left : Text}
    {before tokens : List Token} (hNone : ∀ position left, .value position left ∉ tokens)
    (h : .value position left ∈ bindTokens mode count before tokens) : left = [] := by
  fun_induction bindTokens mode count before tokens with
  | case1 => cases h
  | case2 before digits rest ih =>
    rcases List.mem_cons.mp h with hHead | hTail
    · split at hHead
      · exact (Token.value.inj hHead).2
      · cases hHead
    · exact ih (fun _ _ hMem => hNone _ _ (List.mem_cons_of_mem _ hMem)) hTail
  | case3 before token rest hToken ih =>
    rcases List.mem_cons.mp h with hHead | hTail
    · exact absurd (hHead ▸ List.mem_cons_self) (hNone position left)
    · exact ih (fun _ _ hMem => hNone _ _ (List.mem_cons_of_mem _ hMem)) hTail

/-! ## Telling tokens apart -/

theorem length_bindTokens (mode : Substitution) (count : Nat) (before tokens : List Token) :
    (bindTokens mode count before tokens).length = tokens.length := by
  fun_induction bindTokens mode count before tokens with
  | case1 => rfl
  | case2 before digits rest ih => rw [List.length_cons, List.length_cons, ih]
  | case3 before token rest hToken ih => rw [List.length_cons, List.length_cons, ih]

theorem bindTokens_append (mode : Substitution) (count : Nat) (before first second : List Token) :
    bindTokens mode count before (first ++ second) =
      bindTokens mode count before first ++ bindTokens mode count (before ++ first) second := by
  fun_induction bindTokens mode count before first with
  | case1 => rw [List.append_nil]; rfl
  | case2 before digits rest ih =>
    rw [List.cons_append, bindTokens, ih, List.append_assoc]
    rfl
  | case3 before token rest hToken ih =>
    rw [List.cons_append, bindTokens, ih, List.append_assoc]
    · rfl
    · exact hToken

/-- A text that ends in digits does not end in a value. -/
theorem append_digits_ne {digits value : Text} (hNe : digits ≠ [])
    (hDigits : ∀ c ∈ digits, c.isDigit) (hSpan : IsSpan value) (first second : Text) :
    first ++ digits ≠ second ++ value := by
  intro hEq
  obtain ⟨inner, rfl, -⟩ := hSpan
  have hLast := congrArg List.getLast? hEq
  have hClose : "\\)".toList.getLast? = some ')' := rfl
  rw [List.getLast?_append, List.getLast?_append, List.getLast?_append, hClose, Option.some_or,
    Option.some_or, List.getLast?_eq_some_getLast hNe, Option.some_or,
    Option.some.injEq] at hLast
  have hDigit := hDigits _ (List.getLast_mem hNe)
  rw [hLast] at hDigit
  revert hDigit
  decide

/-- Lists of tokens that are written alike are equal, if each token can be told from its partner
by what stands behind it. -/
theorem eq_of_write_eq {value : Nat → Text} {tokens others : List Token}
    (h : List.Forall₂ (fun token other => ∀ first second : Text,
      first ++ token.text value = second ++ other.text value → token = other) tokens others)
    (hWrite : write value tokens = write value others) : tokens = others := by
  rw [← List.reverse_reverse tokens, ← List.reverse_reverse others] at hWrite
  rw [← List.reverse_inj]
  have hReverse := List.forall₂_reverse_iff.mpr h
  revert hWrite hReverse
  generalize tokens.reverse = rest, others.reverse = more
  intro hWrite hReverse
  induction hReverse with
  | nil => rfl
  | cons hTold hRest ih =>
    simp only [List.reverse_cons, write_append, write_cons, write_nil, List.append_nil] at hWrite
    obtain rfl := hTold _ _ hWrite
    rw [ih (List.append_cancel_right hWrite)]

section Ends

variable {value : Nat → Text} {first second : Text}

theorem text_placeholder_ne {digits : Text} {other : Nat} (hNe : digits ≠ [])
    (hDigits : ∀ c ∈ digits, c.isDigit) (hSpan : IsSpan (value other)) :
    first ++ Token.text value (.placeholder digits) ≠
      second ++ Token.text value (.value other []) := by
  rw [Token.text, Token.text, List.append_nil, ← List.append_assoc]
  exact append_digits_ne hNe hDigits hSpan _ _

theorem text_value_ne {position : Nat} {left : Text} (hSpan : IsSpan (value position)) :
    first ++ Token.text value (.value position left) ≠
      second ++ Token.text value (.placeholder (ofNat position ++ left)) := by
  intro hEq
  rw [Token.text, Token.text, ← List.append_assoc, ← List.append_assoc _ (ofNat position),
    ← List.append_assoc _ (_ ++ _)] at hEq
  have hCut := (List.append_cancel_right hEq).symm
  rw [← List.append_assoc] at hCut
  exact append_digits_ne Nat.toDigits_ne_nil (fun _ => isDigit_of_mem_ofNat) hSpan _ _ hCut

theorem left_eq_nil_of_text_eq {position other : Nat} {left : Text}
    (hLeft : ∀ c ∈ left, c.isDigit) (hSpan : IsSpan (value other))
    (hEq : first ++ Token.text value (.value position left) =
      second ++ Token.text value (.value other [])) : left = [] := by
  rw [Token.text, Token.text, List.append_nil, ← List.append_assoc] at hEq
  by_contra hNe
  exact append_digits_ne hNe hLeft hSpan _ _ hEq

end Ends

/-- Each token behind the loop can be told from the one that is bound by number. -/
theorem forall₂_told (mode : Substitution) {count : Nat} {value : Nat → Text}
    (hValue : ∀ position, 1 ≤ position → position ≤ count → IsSpan (value position))
    {tokens : List Token} (before : List Token)
    (hDigits : ∀ digits, .placeholder digits ∈ tokens.map Token.origin →
      digits ≠ [] ∧ ∀ c ∈ digits, c.isDigit)
    (hBounds : ∀ position left, .value position left ∈ tokens → 1 ≤ position ∧ position ≤ count) :
    List.Forall₂ (fun token other => ∀ first second : Text,
        first ++ token.text value = second ++ other.text value → token = other)
      tokens (bindTokens mode count before (tokens.map Token.origin)) := by
  induction tokens generalizing before with
  | nil => exact .nil
  | cons token tokens ih =>
    rw [List.map_cons] at hDigits ⊢
    have hRest := fun before => ih before
      (fun digits hMem => hDigits digits (List.mem_cons_of_mem _ hMem))
      fun position left hMem => hBounds position left (List.mem_cons_of_mem _ hMem)
    cases token with
    | char c => exact .cons (fun _ _ _ => rfl) (hRest _)
    | placeholder digits =>
      obtain ⟨hNe, hAll⟩ := hDigits digits List.mem_cons_self
      refine .cons (fun first second hEq => ?_) (hRest _)
      split at hEq
      next hFree => exact absurd hEq (text_placeholder_ne hNe hAll (hValue _ hFree.1 hFree.2.1))
      next hNot => rw [if_neg hNot]
    | value position left =>
      obtain ⟨-, hAll⟩ := hDigits (ofNat position ++ left) List.mem_cons_self
      obtain ⟨hPos, hLe⟩ := hBounds position left List.mem_cons_self
      refine .cons (fun first second hEq => ?_) (hRest _)
      split at hEq
      next hFree =>
        have hLeft : ∀ c ∈ left, c.isDigit := fun c hMem => hAll c (List.mem_append_right _ hMem)
        obtain rfl := left_eq_nil_of_text_eq hLeft (hValue _ hFree.1 hFree.2.1) hEq
        rw [List.append_nil, number_ofNat] at hFree
        rw [List.append_nil, number_ofNat, if_pos hFree]
      next hNot => exact absurd hEq (text_value_ne (hValue position hPos hLe))

/-- Where binding by number only takes whole numerals, each number has one spelling. -/
theorem digits_eq_of_map_origin {mode : Substitution} {count : Nat} {first second : List Token}
    {digits : Text}
    (hOrigin :
      (bindTokens mode count [] (first ++ .placeholder digits :: second)).map Token.origin =
        first ++ .placeholder digits :: second)
    (hFree : IsFree mode count (numbers first) (number digits)) :
    digits = ofNat (number digits) := by
  rw [bindTokens_append, List.map_append, List.nil_append, bindTokens, if_pos hFree] at hOrigin
  have hLength : ((bindTokens mode count [] first).map Token.origin).length = first.length := by
    rw [List.length_map, length_bindTokens]
  obtain ⟨-, hRest⟩ := List.append_inj hOrigin hLength
  have hHead := Token.placeholder.inj (List.cons.inj hRest).1
  rw [List.append_nil] at hHead
  exact hHead.symm

/-! ## Filling by number -/

/-- Filling a template puts each value in the place of the placeholders whose number is its
position, and nowhere else, exactly when the template is clear. -/
theorem fill_eq_bind_iff (mode : Substitution) {values : List Text}
    (hValues : ∀ value ∈ values, IsSpan value) (template : Text) :
    fill mode values template =
        write (valueAt values) (bindTokens mode values.length [] (tokens template)) ↔
      IsClear mode values.length (tokens template) := by
  have hReads := reads_tokens template
  have hNone := hReads.value_not_mem
  have hOrigin := (map_origin_fillTokens mode values.length (tokens template)).trans
    (map_origin_of_none hNone)
  rw [fill_eq_write mode hValues]
  constructor
  · intro hWrite
    have hValue : ∀ position, 1 ≤ position → position ≤ values.length →
        IsSpan (valueAt values position) := fun position hPos hLe =>
      hValues _ (valueAt_mem hPos hLe)
    have hTold := forall₂_told mode hValue []
      (fun digits hMem => hReads.digits_of_mem (hOrigin ▸ hMem))
      fun position left hMem => bounds_of_mem_fillTokens hNone hMem
    rw [hOrigin] at hTold
    have hEq := eq_of_write_eq hTold hWrite
    intro first digits second position hTokens hFree hFound
    by_contra hNe
    rcases hFound with hFront | rfl
    · rw [hTokens] at hNone hEq
      obtain ⟨other, left, hLeft, hMem⟩ := exists_left_of_ne hNone hFree hFront hNe
      rw [hEq] at hMem
      exact hLeft (left_of_mem_bindTokens hNone hMem)
    · rw [hEq, hTokens] at hOrigin
      exact hNe (digits_eq_of_map_origin hOrigin hFree)
  · intro hClear
    rw [fillTokens_eq_bindTokens hClear hNone]

/-- Single letters as inline math. -/
def lettered (letters : Text) : List Text := letters.map fun c => ['\\', '(', c, '\\', ')']

theorem isSpan_lettered {value : Text} (h : value ∈ lettered "abcdefghij".toList) :
    IsSpan value := by
  have hNone : ∀ c ∈ "abcdefghij".toList,
      mentions "ARG".toList ['\\', '(', c, '\\', ')'] = false :=
    List.all_iff_forall_prop.mp (by decide)
  obtain ⟨c, hMem, rfl⟩ := List.mem_map.mp h
  exact ⟨[c], rfl, hNone c hMem⟩

/-- A first `ARG1` of its own keeps a later `ARG10` whole when only first occurrences are filled. -/
theorem fill_eq_bind_iff_tenLetters :
    fill .first (lettered "abcdefghij".toList) "ARG1 ARG10 ARG1".toList =
        "\\(a\\) \\(j\\) ARG1".toList ∧
      (∀ value ∈ lettered "abcdefghij".toList, IsSpan value) ∧
      IsClear .first 10 (tokens "ARG1 ARG10 ARG1".toList) := by
  refine ⟨by decide, fun value => isSpan_lettered, ?_⟩
  exact (fill_eq_bind_iff .first (fun value => isSpan_lettered) "ARG1 ARG10 ARG1".toList).mp
    (by decide)

/-- With ten arguments the first value goes to the place of the tenth, and a zero is left. -/
theorem exists_fill_ne_bind : ∃ values template, (∀ value ∈ values, IsSpan value) ∧
    fill .all values template ≠
      write (valueAt values) (bindTokens .all values.length [] (tokens template)) :=
  ⟨lettered "abcdefghij".toList, "ARG10".toList, fun _ => isSpan_lettered, by decide⟩

end Formulary.Placeholder
