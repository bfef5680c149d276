import Formulary.Proofs.Text.Numeral
import Formulary.Proofs.Text.Search
import Formulary.Text.Placeholder
import Mathlib.Data.List.Infix
import Mathlib.Tactic.ByContra

/-!
# Putting a value into a text

A name is four characters long when its position has one digit, and two such names neither overlap
nor agree unless their positions do. From this follow the equations of `put`, by what stands at the
front of the text:

* `put_cons`, a character at which the name does not begin;
* `put_name` and `put_other`, the name of the position and the name of another one;
* `put_wrapped` and `put_span`, a value that is already there and does not mention the name, or
  no `ARG` at all;
* `exists_put_of_mentions`, a text that mentions the name.

`puts` counts how often a value is put, and has the same equations.
-/

namespace Formulary.Placeholder

open Text

/-! ## Names -/

theorem name_eq {position : Nat} (h : position < 10) :
    name position = ['A', 'R', 'G', position.digitChar] := by
  rw [name, Text.ofNat, Nat.toDigits_of_lt_base h]
  rfl

theorem name_ne_nil (position : Nat) : name position ≠ [] :=
  List.append_ne_nil_of_left_ne_nil (by decide) _

/-- A name consists of letters and digits. -/
theorem not_mem_name {c : Char} (hWord : c ∉ "ARG".toList) (hDigit : c.isDigit = false)
    (position : Nat) : c ∉ name position := by
  intro h
  rcases List.mem_append.mp h with hLetter | hNumeral
  · exact hWord hLetter
  · rw [isDigit_of_mem_ofNat hNumeral] at hDigit
    cases hDigit

theorem slash_not_mem_name (position : Nat) : '\\' ∉ name position :=
  not_mem_name (by decide) (by decide) position

theorem paren_not_mem_name (position : Nat) : ')' ∉ name position :=
  not_mem_name (by decide) (by decide) position

theorem digitChar_inj {i j : Nat} (hi : i < 10) (hj : j < 10) (h : i.digitChar = j.digitChar) :
    i = j := by
  have hAll : ∀ i < 10, ∀ j < 10, Nat.digitChar i = Nat.digitChar j → i = j := by decide
  exact hAll i hi j hj h

theorem isPrefixOf_name {i j : Nat} (hi : i < 10) (hj : j < 10) (rest : Text) :
    (name i).isPrefixOf (name j ++ rest) = decide (i = j) := by
  have hDigits : (i.digitChar == j.digitChar) = decide (i = j) :=
    decide_eq_decide.mpr ⟨digitChar_inj hi hj, congrArg Nat.digitChar⟩
  rw [name_eq hi, name_eq hj]
  simp [List.isPrefixOf, hDigits]

/-- No name begins inside another one. -/
theorem isPrefixOf_name_cons {position : Nat} (h : position < 10) {c : Char} (hc : c ≠ 'A')
    (rest : Text) : (name position).isPrefixOf (c :: rest) = false := by
  rw [name_eq h]
  simp [List.isPrefixOf, Ne.symm hc]

theorem digitChar_ne {position : Nat} (h : position < 10) : position.digitChar ≠ 'A' := by
  have hAll : ∀ i < 10, Nat.digitChar i ≠ 'A' := by decide
  exact hAll position h

theorem mentions_name {i j : Nat} (hi : i < 10) (hj : j < 10) (rest : Text) :
    mentions (name i) (name j ++ rest) = (decide (i = j) || mentions (name i) rest) := by
  have hFront := isPrefixOf_name hi hj rest
  rw [name_eq hj] at hFront ⊢
  simp only [List.cons_append, List.nil_append] at hFront ⊢
  simp only [mentions, hFront, isPrefixOf_name_cons hi (show 'R' ≠ 'A' by decide),
    isPrefixOf_name_cons hi (show 'G' ≠ 'A' by decide),
    isPrefixOf_name_cons hi (digitChar_ne hj), Bool.false_or]

/-- A name behind another one does not begin within it. -/
theorem exists_of_name_append {i j : Nat} (hi : i < 10) (hj : j < 10) {before after rest : Text}
    (h : name j ++ rest = before ++ (name i ++ after)) (hNe : before ≠ []) :
    ∃ later, before = name j ++ later := by
  rw [name_eq hi, name_eq hj] at h
  rw [name_eq hj]
  match before with
  | [] => exact absurd rfl hNe
  | [_] => simp at h
  | [_, _] => simp at h
  | [_, _, _] => simp [digitChar_ne hj] at h
  | c₁ :: c₂ :: c₃ :: c₄ :: later =>
    simp only [List.cons_append, List.cons.injEq] at h
    obtain ⟨rfl, rfl, rfl, rfl, -⟩ := h
    exact ⟨later, rfl⟩

/-! ## Putting one value -/

theorem put_cons {mode : Substitution} {position : Nat} {value : Text} {c : Char} {rest : Text}
    (h : (name position).isPrefixOf (c :: rest) = false) :
    put mode position value (c :: rest) = c :: put mode position value rest := by
  cases mode with
  | first => simp [put, replaceFirst, h]
  | all => simp [put, replaceAll, replaceFrom, h]

theorem replaceFrom_append (word value before rest : Text) :
    replaceFrom word value before.length (before ++ rest) = replaceFrom word value 0 rest := by
  induction before with
  | nil => rfl
  | cons c before ih => exact ih

/-- At a name the value is put; the first one ends the search. -/
theorem put_name (mode : Substitution) (position : Nat) (value rest : Text) :
    put mode position value (name position ++ rest) =
      value ++ (if mode = .first then rest else put mode position value rest) := by
  obtain ⟨c, word, hName⟩ := List.exists_cons_of_ne_nil (name_ne_nil position)
  have hFront := isPrefixOf_append_self (name position) rest
  have hSkip := replaceFrom_append (c :: word) value word rest
  rw [hName] at hFront
  simp only [List.cons_append] at hFront
  cases mode <;> simp [put, replaceFirst, replaceAll, replaceFrom, hName, hFront, hSkip]

theorem put_other {i j : Nat} (hi : i < 10) (hj : j < 10) (hNe : i ≠ j) (mode : Substitution)
    (value rest : Text) :
    put mode i value (name j ++ rest) = name j ++ put mode i value rest := by
  have hFront := isPrefixOf_name hi hj rest
  rw [decide_eq_false hNe, name_eq hj] at hFront
  rw [name_eq hj]
  simp only [List.cons_append, List.nil_append] at hFront ⊢
  rw [put_cons hFront, put_cons (isPrefixOf_name_cons hi (by decide) _),
    put_cons (isPrefixOf_name_cons hi (by decide) _),
    put_cons (isPrefixOf_name_cons hi (digitChar_ne hj) _)]

theorem isPrefixOf_name_nil (position : Nat) : (name position).isPrefixOf [] = false := by
  cases hName : name position with
  | nil => exact absurd hName (name_ne_nil position)
  | cons => rfl

/-- No name begins in a text that has none and ends in a character that no name has. -/
theorem not_isPrefixOf_of_mentions {position : Nat} {c mark : Char} {before : Text}
    (hMark : mark ∉ name position) (hBefore : mentions (name position) (c :: before) = false)
    (rest : Text) : (name position).isPrefixOf (c :: (before ++ mark :: rest)) = false := by
  rw [← List.cons_append, isPrefixOf_append_cons hMark]
  exact (Bool.or_eq_false_iff.mp hBefore).1

theorem not_isPrefixOf_of_not_mem {position : Nat} {mark : Char} (hMark : mark ∉ name position)
    (rest : Text) : (name position).isPrefixOf (mark :: rest) = false := by
  have hFront := isPrefixOf_append_cons hMark [] rest
  rwa [isPrefixOf_name_nil] at hFront

/-- A text is passed over when it has no name and ends in a character that no name has. -/
theorem put_append_cons {position : Nat} {before : Text} {mark : Char}
    (hMark : mark ∉ name position) (hBefore : mentions (name position) before = false)
    (mode : Substitution) (value rest : Text) :
    put mode position value (before ++ mark :: rest) =
      before ++ mark :: put mode position value rest := by
  induction before with
  | nil => exact put_cons (not_isPrefixOf_of_not_mem hMark rest)
  | cons c before ih =>
    have hLater := (Bool.or_eq_false_iff.mp hBefore).2
    rw [List.cons_append, put_cons (not_isPrefixOf_of_mentions hMark hBefore rest), ih hLater]
    rfl

/-- The first occurrence of a name in a text is filled there, whatever follows the text. -/
theorem exists_put_of_mentions {position : Nat} {text : Text}
    (h : mentions (name position) text) (mode : Substitution) (value rest : Text) :
    ∃ start finish tail, text = start ++ (name position ++ finish) ∧
      put mode position value (text ++ rest) = start ++ (value ++ tail) := by
  induction text with
  | nil =>
    rw [mentions, List.isEmpty_iff] at h
    exact absurd h (name_ne_nil position)
  | cons c text ih =>
    by_cases hHere : (name position).isPrefixOf (c :: text)
    · obtain ⟨finish, hText⟩ := exists_of_isPrefixOf hHere
      refine ⟨[], finish, if mode = .first then finish ++ rest
        else put mode position value (finish ++ rest), hText, ?_⟩
      rw [hText, List.append_assoc, put_name]
      rfl
    · have hLater : mentions (name position) text := by
        rw [mentions, Bool.or_eq_true] at h
        exact h.resolve_left hHere
      obtain ⟨start, finish, tail, hText, hPut⟩ := ih hLater
      have hFront : (name position).isPrefixOf (c :: (text ++ rest)) = false := by
        by_contra hSome
        rw [Bool.not_eq_false, List.isPrefixOf_iff_prefix] at hSome
        -- The occurrence behind `c` makes the text long enough to hold the whole name.
        have hLength : (name position).length ≤ (c :: text).length := by
          rw [hText, List.length_cons, List.length_append, List.length_append]
          omega
        exact hHere (List.isPrefixOf_iff_prefix.mpr
          (List.prefix_of_prefix_length_le hSome (List.prefix_append (c :: text) rest) hLength))
      refine ⟨c :: start, finish, tail, by rw [hText]; rfl, ?_⟩
      rw [List.cons_append, put_cons hFront, hPut]
      rfl

/-- A text between the delimiters of inline math. -/
def IsWrapped (value : Text) : Prop := ∃ inner, value = "\\(".toList ++ inner ++ "\\)".toList

theorem IsWrapped.exists_cons {value : Text} (h : IsWrapped value) :
    ∃ rest, value = '\\' :: rest := by
  obtain ⟨inner, rfl⟩ := h
  exact ⟨_, rfl⟩

/-- Inline math that does not mention the name ends in a parenthesis behind a text that does not. -/
theorem IsWrapped.exists_before {position : Nat} {span : Text} (hWrapped : IsWrapped span)
    (hNone : mentions (name position) span = false) :
    ∃ before, span = before ++ [')'] ∧ mentions (name position) before = false := by
  obtain ⟨inner, hEq⟩ := hWrapped
  have hEnd : span = ("\\(".toList ++ inner ++ ['\\']) ++ [')'] := by
    rw [hEq, List.append_assoc _ ['\\']]
    rfl
  refine ⟨_, hEnd, ?_⟩
  rw [hEnd, mentions_append_cons (name_ne_nil position) (paren_not_mem_name position)] at hNone
  exact (Bool.or_eq_false_iff.mp hNone).1

/-- Inline math is passed over when it does not mention the name. -/
theorem put_wrapped {position : Nat} {span : Text} (hWrapped : IsWrapped span)
    (hNone : mentions (name position) span = false) (mode : Substitution) (value rest : Text) :
    put mode position value (span ++ rest) = span ++ put mode position value rest := by
  obtain ⟨before, rfl, hBefore⟩ := hWrapped.exists_before hNone
  rw [List.append_assoc, List.append_assoc]
  exact put_append_cons (paren_not_mem_name position) hBefore mode value rest

/-- A value that is put into a template: inline math that does not mention `ARG`. -/
def IsSpan (value : Text) : Prop :=
  ∃ inner, value = "\\(".toList ++ inner ++ "\\)".toList ∧ mentions "ARG".toList value = false

theorem IsSpan.isWrapped {value : Text} (h : IsSpan value) : IsWrapped value := by
  obtain ⟨inner, hEq, -⟩ := h
  exact ⟨inner, hEq⟩

theorem IsSpan.mentions_name {value : Text} (h : IsSpan value) (position : Nat) :
    mentions (name position) value = false := by
  obtain ⟨-, -, hNone⟩ := h
  exact mentions_append_eq_false _ hNone

theorem put_span {position : Nat} {span : Text} (hSpan : IsSpan span) (mode : Substitution)
    (value rest : Text) :
    put mode position value (span ++ rest) = span ++ put mode position value rest :=
  put_wrapped hSpan.isWrapped (hSpan.mentions_name position) mode value rest

/-! ## How often a value is put -/

/-- How often a nonempty word occurs, from the left and without overlaps. The first argument counts
the characters of an occurrence that are still to be passed over. -/
def occurrencesFrom (word : Text) : Nat → Text → Nat
  | _, [] => 0
  | skip + 1, _ :: rest => occurrencesFrom word skip rest
  | 0, c :: rest =>
    if word.isPrefixOf (c :: rest) then 1 + occurrencesFrom word (word.length - 1) rest
    else occurrencesFrom word 0 rest

/-- How often a value is put in the place of a placeholder. -/
def puts (mode : Substitution) (position : Nat) (text : Text) : Nat :=
  match mode with
  | .first => if mentions (name position) text then 1 else 0
  | .all => occurrencesFrom (name position) 0 text

/-- How often each of the values is put that fill the placeholders from `position` on. -/
def copies (mode : Substitution) : Nat → List Text → Text → List Nat
  | _, [], _ => []
  | position, value :: rest, text =>
    puts mode position text :: copies mode (position + 1) rest (put mode position value text)

theorem puts_nil (mode : Substitution) (position : Nat) : puts mode position [] = 0 := by
  cases mode with
  | first =>
    have hNone : mentions (name position) [] = false := by
      rw [mentions, List.isEmpty_eq_false_iff]
      exact name_ne_nil position
    rw [puts, hNone]
    rfl
  | all => rfl

theorem puts_cons {mode : Substitution} {position : Nat} {c : Char} {rest : Text}
    (h : (name position).isPrefixOf (c :: rest) = false) :
    puts mode position (c :: rest) = puts mode position rest := by
  cases mode <;> simp [puts, mentions, occurrencesFrom, h]

theorem occurrencesFrom_append (word before rest : Text) :
    occurrencesFrom word before.length (before ++ rest) = occurrencesFrom word 0 rest := by
  induction before with
  | nil => rfl
  | cons c before ih => exact ih

theorem puts_name (mode : Substitution) (position : Nat) (rest : Text) :
    puts mode position (name position ++ rest) =
      1 + if mode = .first then 0 else puts mode position rest := by
  obtain ⟨c, word, hName⟩ := List.exists_cons_of_ne_nil (name_ne_nil position)
  have hFront := isPrefixOf_append_self (name position) rest
  have hSkip := occurrencesFrom_append (c :: word) word rest
  rw [hName] at hFront
  simp only [List.cons_append] at hFront
  cases mode <;> simp [puts, mentions, occurrencesFrom, hName, hFront, hSkip]

theorem puts_append_cons {position : Nat} {before : Text} {mark : Char}
    (hMark : mark ∉ name position) (hBefore : mentions (name position) before = false)
    (mode : Substitution) (rest : Text) :
    puts mode position (before ++ mark :: rest) = puts mode position rest := by
  induction before with
  | nil => exact puts_cons (not_isPrefixOf_of_not_mem hMark rest)
  | cons c before ih =>
    have hLater := (Bool.or_eq_false_iff.mp hBefore).2
    rw [List.cons_append, puts_cons (not_isPrefixOf_of_mentions hMark hBefore rest), ih hLater]

theorem puts_span {position : Nat} {span : Text} (hSpan : IsSpan span) (mode : Substitution)
    (rest : Text) : puts mode position (span ++ rest) = puts mode position rest := by
  obtain ⟨before, rfl, hBefore⟩ :=
    hSpan.isWrapped.exists_before (hSpan.mentions_name position)
  rw [List.append_assoc]
  exact puts_append_cons (paren_not_mem_name position) hBefore mode rest

end Formulary.Placeholder
