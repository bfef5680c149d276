import Formulary.Proofs.Json.Number
import Formulary.Proofs.Render.Visit
import Formulary.Proofs.Text.Search
import Formulary.Proofs.Text.Utf8
import Mathlib.Data.List.TakeWhile

/-!
# Repeating decimals

A decimal whose last digits repeat is written with its point as a comma and its period between
parentheses.

* `format_eq_error_iff`, `format_eq_ok_iff`: it fails when more digits repeat than there are places,
  the point included, and is written with its digits cut otherwise;
* `formatChecked?_eq`: the cut can be made in the bytes of the digits, at the offset of a character
  that is counted out. No subtraction goes below zero and no character is cut;
* `count?_eq_some_iff`: the count is a numeral below `2 ^ 64` between blanks;
* `renderWithin_repeating`: a node is written from the values of its first two children alone.

`outcome_iff` puts them together.
-/

namespace Formulary

open Text

namespace Repeating

/-! ## The digits behind the point -/

/-- The whole part of a decimal and its digits: the parts before and after its first point. -/
def IsParts (decimal whole digits : Text) : Prop :=
  (decimal = whole ++ '.' :: digits ∧ '.' ∉ whole) ∨
    (decimal = whole ∧ '.' ∉ whole ∧ digits = [])

theorem isParts_parts (decimal : Text) :
    IsParts decimal (parts decimal).1 (parts decimal).2 := by
  unfold parts
  cases hCut : cutAt '.' decimal with
  | none => exact .inr ⟨rfl, cutAt_eq_none_iff.mp hCut, rfl⟩
  | some found => exact .inl (cutAt_eq_some hCut)

/-- More digits repeat than there are, and one more for the point. -/
theorem format_eq_error_iff {decimal : Text} {count : Nat} {error : RenderError} :
    format decimal count = .error error ↔ (parts decimal).2.length + 1 < count ∧
      error = .repeatTooLong count ((parts decimal).2.length + 1) := by
  simp only [format]
  split
  · rename_i hLong
    rw [Except.error.injEq, eq_comm, and_iff_right hLong]
  · rename_i hFits
    exact iff_of_false (by simp) fun h => hFits h.1

/-- There is no other failure. -/
theorem format_ne_error {decimal : Text} {count : Nat} {error : RenderError}
    (hOther : ∀ length width, error ≠ .repeatTooLong length width) :
    format decimal count ≠ .error error :=
  fun h => hOther _ _ (format_eq_error_iff.mp h).2

/-- Otherwise the digits are cut, with as many behind the cut as repeat. -/
theorem format_eq_ok_iff {decimal text : Text} {count : Nat} :
    format decimal count = .ok text ↔ count ≤ (parts decimal).2.length + 1 ∧
      ∃ before after, before ++ after = (parts decimal).2 ∧
        after.length = min count (parts decimal).2.length ∧
        text = (parts decimal).1 ++ "\x7b,\x7d".toList ++ before ++ '(' :: after ++ [')'] := by
  rcases hParts : parts decimal with ⟨whole, digits⟩
  simp only [format, hParts]
  split
  · rename_i hLong
    exact iff_of_false (by simp) fun h => absurd hLong (Nat.not_lt.mpr h.1)
  · rename_i hFits
    rw [Except.ok.injEq]
    constructor
    · rintro rfl
      exact ⟨by omega, _, _, List.take_append_drop _ digits, by rw [List.length_drop]; omega, rfl⟩
    · rintro ⟨-, before, after, rfl, hAfter, rfl⟩
      have hBefore : (before ++ after).length - count = before.length := by
        rw [List.length_append] at hAfter ⊢
        omega
      rw [hBefore, List.take_left, List.drop_left]
      rfl

/-! ### The digits cut by their bytes -/

/-- A difference, which must not be negative. -/
def minus? (n m : Nat) : Option Nat := if m ≤ n then some (n - m) else none

/-- Write a decimal whose last `count` digits repeat, where the digits are cut at the offset of the
first character of the period. -/
def formatChecked? (decimal : Text) (count : Nat) : Option (Except RenderError Text) :=
  let (whole, digits) := parts decimal
  let width := digits.length + 1
  if width < count then some (.error (.repeatTooLong count width))
  else do
    let place ← minus? digits.length (min count digits.length)
    let offset := ((Utf8.offsetsFrom 0 digits)[place]?).getD (Utf8.encode digits).length
    let (before, after) ← Utf8.splitAt? offset digits
    return .ok (whole ++ comma ++ before ++ '(' :: after ++ [')'])

/-- No difference is negative and no character is cut. -/
theorem formatChecked?_eq (decimal : Text) (count : Nat) :
    formatChecked? decimal count = some (format decimal count) := by
  rcases hParts : parts decimal with ⟨whole, digits⟩
  simp only [formatChecked?, format, hParts]
  split
  · rfl
  · have hPlace : minus? digits.length (min count digits.length) =
        some (digits.length - count) := by
      rw [minus?, if_pos (Nat.min_le_right _ _)]
      congr 1
      omega
    have hOffset := Utf8.getD_offsetsFrom 0 (digits.length - count) digits
    have hSplit := Utf8.splitAt?_append (digits.take (digits.length - count))
      (digits.drop (digits.length - count))
    rw [List.take_append_drop] at hSplit
    rw [Nat.zero_add, Nat.zero_add] at hOffset
    rw [hPlace]
    simp only [Option.bind_eq_bind, Option.bind_some, hOffset, hSplit]
    rfl

/-! ## The count -/

/-- A word is what is left of a text without the blanks at its ends. -/
structure IsTrimmed (text word : Text) : Prop where
  cut : ∃ before after, text = before ++ word ++ after ∧
    (∀ c ∈ before, Unicode.isBlank c) ∧ ∀ c ∈ after, Unicode.isBlank c
  head : ∀ c ∈ word.head?, ¬ Unicode.isBlank c
  last : ∀ c ∈ word.getLast?, ¬ Unicode.isBlank c

/-- A word of digits, perhaps behind a plus sign, stands for a count below `2 ^ 64`. -/
structure IsCount (word : Text) (count : Nat) : Prop where
  digits : ∃ digits, (word = digits ∨ word = '+' :: digits) ∧ digits ≠ [] ∧
    (∀ c ∈ digits, c.isDigit) ∧ Nat.ofDigitChars 10 digits 0 = count
  bound : count < 2 ^ 64

/-- The text denotes a count, without the blanks at its ends. -/
def Denotes (text : Text) (count : Nat) : Prop := ∃ word, IsTrimmed text word ∧ IsCount word count

theorem dropWhile_eq_iff {p : Char → Bool} {text rest : Text} :
    text.dropWhile p = rest ↔
      ∃ before, text = before ++ rest ∧ (∀ c ∈ before, p c) ∧ ∀ c ∈ rest.head?, ¬ p c := by
  constructor
  · rintro rfl
    refine ⟨text.takeWhile p, List.takeWhile_append_dropWhile.symm,
      fun c => List.mem_takeWhile_imp, fun c hc => ?_⟩
    have hHead := List.head?_dropWhile_not p text
    rw [Option.mem_def.mp hc] at hHead
    simp [hHead]
  · rintro ⟨before, rfl, hBefore, hHead⟩
    rw [List.dropWhile_append_of_pos hBefore]
    cases rest with
    | nil => rfl
    | cons c rest => exact List.dropWhile_cons_of_neg (hHead c rfl)

theorem isTrimmed_iff {text word : Text} : IsTrimmed text word ↔ trim text = word := by
  constructor
  · rintro ⟨⟨before, after, rfl, hBefore, hAfter⟩, hHead, hLast⟩
    -- A text of blanks leaves no word, so its blanks are all taken from the front.
    cases word with
    | nil =>
      have hAll : (before ++ [] ++ after).dropWhile Unicode.isBlank = [] := by
        refine dropWhile_eq_iff.mpr ⟨before ++ after, by simp, fun c hc => ?_, nofun⟩
        exact (List.mem_append.mp hc).elim (hBefore c) (hAfter c)
      rw [trim, hAll]
      rfl
    | cons c rest =>
      have hFront : (before ++ c :: rest ++ after).dropWhile Unicode.isBlank = c :: rest ++ after :=
        dropWhile_eq_iff.mpr ⟨before, List.append_assoc .., hBefore, hHead⟩
      have hBack :
          (c :: rest ++ after).reverse.dropWhile Unicode.isBlank = (c :: rest).reverse := by
        refine dropWhile_eq_iff.mpr ⟨after.reverse, List.reverse_append, fun d hd => ?_, ?_⟩
        · exact hAfter d (List.mem_reverse.mp hd)
        · rw [List.head?_reverse]
          exact hLast
      rw [trim, hFront, hBack, List.reverse_reverse]
  · intro h
    obtain ⟨before, hText, hBefore, hHead⟩ :=
      dropWhile_eq_iff.mp (Eq.refl (text.dropWhile Unicode.isBlank))
    have hBack : (text.dropWhile Unicode.isBlank).reverse.dropWhile Unicode.isBlank =
        word.reverse := by rw [← h, trim, List.reverse_reverse]
    obtain ⟨after, hReverse, hAfter, hLast⟩ := dropWhile_eq_iff.mp hBack
    have hRest : text.dropWhile Unicode.isBlank = word ++ after.reverse := by
      rw [← List.reverse_reverse (text.dropWhile _), hReverse, List.reverse_append,
        List.reverse_reverse]
    rw [hRest] at hText hHead
    rw [List.head?_reverse] at hLast
    refine ⟨⟨before, after.reverse, by rw [hText, List.append_assoc], hBefore,
      fun c hc => hAfter c (List.mem_reverse.mp hc)⟩, fun c hc => hHead c ?_, hLast⟩
    rw [List.head?_append, Option.mem_def.mp hc]
    rfl

/-- Digits are left when the sign is taken off, if there is one. -/
theorem unsigned_eq_iff {word digits : Text} (hDigits : ∀ c ∈ digits, c.isDigit) :
    unsigned word = digits ↔ word = digits ∨ word = '+' :: digits := by
  constructor
  · rintro rfl
    unfold unsigned
    split
    · exact .inr rfl
    · exact .inl rfl
  · rintro (rfl | rfl)
    · unfold unsigned
      split
      · exact absurd (hDigits '+' List.mem_cons_self) (by decide)
      · rfl
    · rfl

/-- A text has a count exactly when it denotes one. -/
theorem count?_eq_some_iff {text : Text} {count : Nat} :
    count? text = some count ↔ Denotes text count := by
  have hTrimmed : Denotes text count ↔ IsCount (trim text) count := by
    simp only [Denotes, isTrimmed_iff, exists_eq_left']
  rw [hTrimmed]
  constructor
  · intro h
    simp only [count?] at h
    split at h
    · rename_i hShape
      have hDigits : ∀ c ∈ unsigned (trim text), c.isDigit := List.all_eq_true.mp hShape.2
      have hWord := (unsigned_eq_iff hDigits).mp rfl
      split at h
      · rename_i hBound
        cases h
        exact ⟨⟨_, hWord, hShape.1, hDigits, (Json.Numeral.digitsValue_eq _).symm⟩, hBound⟩
      · cases h
    · cases h
  · rintro ⟨⟨digits, hWord, hSome, hDigits, hValue⟩, hBound⟩
    have hFold : digits.foldl (fun n c => n * 10 + (c.toNat - '0'.toNat)) 0 = count :=
      (Json.Numeral.digitsValue_eq digits).trans hValue
    simp only [count?, (unsigned_eq_iff hDigits).mpr hWord]
    rw [if_pos ⟨hSome, List.all_eq_true.mpr hDigits⟩, hFold]
    exact if_pos hBound

/-! ## Nodes -/

/-- A node with a repeating decimal is written without a look at what lies below its children. -/
theorem renderWithin_repeating {node : Node} (hTag : node.tag? = some .repeating)
    (hArity : 2 ≤ node.children.length) (settings : Settings) (room : Nat) :
    renderWithin settings (room + 1) node = Run.ofExcept node.repeating := by
  have hCheck : Tag.repeating.check node = .ok () := if_neg (Nat.not_lt.mpr hArity)
  have hPlan : node.plan = node.repeating.map Plan.write := by
    simp only [Node.plan, hTag, hCheck]
    rfl
  rw [renderWithin_succ, hPlan]
  cases node.repeating <;> rfl

section

variable {node first second : Node} {others : List Node}
  (hChildren : node.children = first :: second :: others)
include hChildren

theorem repeating_eq_bind :
    node.repeating = (do
      let decimal ← first.needText .repeating
      let literal ← second.needText .repeating
      match count? literal with
      | some count => format decimal count
      | none => .error (.invalidLiteral .repeating literal)) := by
  rw [Node.repeating, Node.needChildText, Node.needChildText, hChildren]
  rfl

theorem repeating_of_missing (hMissing : first.text? = none ∨ second.text? = none) :
    node.repeating = .error (.missingValue .repeating) := by
  rw [repeating_eq_bind hChildren, Node.needText, Node.needText]
  rcases hMissing with hFirst | hSecond
  · rw [hFirst]
    rfl
  · rw [hSecond]
    cases first.text? <;> rfl

theorem repeating_of_texts {decimal literal : Text} (hFirst : first.text? = some decimal)
    (hSecond : second.text? = some literal) :
    node.repeating =
      match count? literal with
      | some count => format decimal count
      | none => .error (.invalidLiteral .repeating literal) := by
  rw [repeating_eq_bind hChildren, Node.needText, Node.needText, hFirst, hSecond]
  rfl

/-- A value of the first two children is missing exactly when the node fails so. -/
theorem repeating_eq_missing_iff :
    node.repeating = .error (.missingValue .repeating) ↔
      first.text? = none ∨ second.text? = none := by
  refine ⟨fun h => ?_, repeating_of_missing hChildren⟩
  by_contra hBoth
  obtain ⟨hFirst, hSecond⟩ := not_or.mp hBoth
  obtain ⟨decimal, hDecimal⟩ := Option.ne_none_iff_exists'.mp hFirst
  obtain ⟨literal, hLiteral⟩ := Option.ne_none_iff_exists'.mp hSecond
  rw [repeating_of_texts hChildren hDecimal hLiteral] at h
  split at h
  · exact format_ne_error (by simp) h
  · cases h

/-- The second value denotes no count exactly when the node fails so. -/
theorem repeating_eq_invalid_iff {decimal literal : Text} (hFirst : first.text? = some decimal)
    (hSecond : second.text? = some literal) :
    node.repeating = .error (.invalidLiteral .repeating literal) ↔
      ¬ ∃ count, Denotes literal count := by
  simp only [repeating_of_texts hChildren hFirst hSecond, ← count?_eq_some_iff]
  cases count? literal with
  | none => simp
  | some count => exact iff_of_false (format_ne_error (by simp)) (by simp)

theorem repeating_of_denotes {decimal literal : Text} {count : Nat}
    (hFirst : first.text? = some decimal) (hSecond : second.text? = some literal)
    (hCount : Denotes literal count) : node.repeating = format decimal count := by
  rw [repeating_of_texts hChildren hFirst hSecond, count?_eq_some_iff.mpr hCount]

end

/-- A decimal and a count are written, unless the count is too great for the digits behind the
point; a node is written from the values of its first two children, unless one is missing or the
second one denotes no count. -/
theorem outcome_iff :
    (∀ decimal count, ∃ whole digits, IsParts decimal whole digits ∧
      (∀ error, format decimal count = .error error ↔
        digits.length + 1 < count ∧ error = .repeatTooLong count (digits.length + 1)) ∧
      (∀ text, format decimal count = .ok text ↔ count ≤ digits.length + 1 ∧
        ∃ before after, before ++ after = digits ∧ after.length = min count digits.length ∧
          text = whole ++ "\x7b,\x7d".toList ++ before ++ '(' :: after ++ [')']) ∧
      formatChecked? decimal count = some (format decimal count)) ∧
    ∀ (settings : Settings) (room : Nat) (node first second : Node) (others : List Node),
      node.kind = "periodic_localize".toList → node.children = first :: second :: others →
      ∃ outcome, renderWithin settings (room + 1) node = Run.ofExcept outcome ∧
        (outcome = .error (.missingValue .repeating) ↔
          first.text? = none ∨ second.text? = none) ∧
        ∀ decimal literal, first.text? = some decimal → second.text? = some literal →
          (outcome = .error (.invalidLiteral .repeating literal) ↔
            ¬ ∃ count, Denotes literal count) ∧
          ∀ count, Denotes literal count → outcome = format decimal count := by
  constructor
  · intro decimal count
    exact ⟨_, _, isParts_parts decimal, fun _ => format_eq_error_iff, fun _ => format_eq_ok_iff,
      formatChecked?_eq decimal count⟩
  · intro settings room node first second others hKind hChildren
    have hTag : node.tag? = some .repeating := by rw [Node.tag?, hKind]; decide
    have hArity : 2 ≤ node.children.length := by simp [hChildren]
    exact ⟨_, renderWithin_repeating hTag hArity settings room,
      repeating_eq_missing_iff hChildren, fun decimal literal hFirst hSecond =>
        ⟨repeating_eq_invalid_iff hChildren hFirst hSecond,
          fun count => repeating_of_denotes hChildren hFirst hSecond⟩⟩

/-- A repeating decimal with a count below a child of its own. -/
def mixed (literal : String) : Node :=
  .ofChildren "periodic_localize".toList
    [⟨"sum".toList, some (.text "0.1२३४".toList), [.ofChildren "frac".toList []], []⟩,
      .leaf [] (.text literal.toList), .ofChildren [] []]

/-- Digits are counted, not bytes, and counts are bounded by 64 bits. -/
theorem outcome_mixed :
    (renderWithin {} 1 (mixed "\u2003+03 ")).outcome = .ok "0\x7b,\x7d1(२३४)".toList ∧
    (renderWithin {} 1 (mixed "18446744073709551615")).outcome =
      .error (.repeatTooLong 18446744073709551615 5) ∧
    (renderWithin {} 1 (mixed "18446744073709551616")).outcome =
      .error (.invalidLiteral .repeating "18446744073709551616".toList) := by
  obtain ⟨-, hRender⟩ := outcome_iff
  have hCounted : ∀ literal count, Denotes literal.toList count →
      (renderWithin {} 1 (mixed literal)).outcome = format "0.1२३४".toList count := by
    intro literal count hCount
    obtain ⟨outcome, hRun, -, hTexts⟩ := hRender {} 0 (mixed literal) _ _ _ rfl rfl
    rw [hRun]
    exact (hTexts _ _ rfl rfl).2 count hCount
  refine ⟨(hCounted _ 3 (count?_eq_some_iff.mp (by decide))).trans (by decide),
    (hCounted _ 18446744073709551615 (count?_eq_some_iff.mp (by decide))).trans (by decide), ?_⟩
  obtain ⟨outcome, hRun, -, hTexts⟩ := hRender {} 0 (mixed "18446744073709551616") _ _ _ rfl rfl
  have hNone : ∀ count, ¬ Denotes "18446744073709551616".toList count := by
    intro count hCount
    cases (count?_eq_some_iff.mpr hCount).symm.trans
      (show count? "18446744073709551616".toList = none by decide)
  rw [hRun]
  exact (hTexts _ _ rfl rfl).1.mpr (not_exists.mpr hNone)

end Repeating

end Formulary
