import Formulary.Json.Printer
import Formulary.Json.Reader
import Formulary.Proofs.Text.Numeral

/-!
# Printed lexemes are read back

A string is read back as it was before it was printed, whatever characters it holds
(`readText_printString`). An integer is read back when it fits 64 bits, with or without a sign, and
the numeral does not go on behind it (`readAtom_ofInt`).
-/

namespace Formulary.Json

open Text

variable {α β : Type}

/-! ## One reader after another -/

namespace Reader

theorem bind_of_ok {reader : Reader α} {text rest : Text} {value : α}
    (h : reader text = .ok (value, rest)) (next : α → Reader β) :
    (reader >>= next) text = next value rest := by
  change (reader text >>= fun read => next read.1 read.2) = _
  rw [h]
  rfl

theorem peek_cons {c : Char} (hc : isBlank c = false) (atEnd : Fault) (rest : Text) :
    peek atEnd (c :: rest) = .ok (c, c :: rest) := by
  rw [peek, List.dropWhile_cons_of_neg (by simpa using hc)]

theorem advance_cons (c : Char) (rest : Text) : advance (c :: rest) = .ok ((), rest) := rfl

end Reader

open Reader

/-! ## Strings -/

section

variable {rest text after : Text}

/-- The escape of one letter. -/
theorem readString_simple {letter c : Char} (hUnit : letter ≠ 'u')
    (hEscape : simpleEscape? letter = some c) (h : readString rest = .ok (text, after)) :
    readString ('\\' :: letter :: rest) = .ok (c :: text, after) := by
  rw [readString] at h ⊢
  rw [readStringFrom, if_neg (by decide), if_pos rfl, readStringFrom, if_neg hUnit, hEscape, h]
  rfl

theorem lacksUnit_cons (a b c d : Char) (rest : Text) :
    lacksUnit (a :: b :: c :: d :: rest) = false := by
  have hPos := Char.utf8Size_pos
  have ha := hPos a
  have hb := hPos b
  have hc := hPos c
  have hd := hPos d
  simp only [lacksUnit, List.map_cons, List.foldr_cons]
  exact decide_eq_false (by omega)

/-- No character is a surrogate. -/
theorem not_surrogate_toNat (c : Char) :
    isLeading c.toNat = false ∧ isTrailing c.toNat = false := by
  have hValid : c.toNat < 0xD800 ∨ 0xDFFF < c.toNat ∧ c.toNat < 0x110000 := c.valid
  simp only [isLeading, isTrailing, Bool.and_eq_false_iff, decide_eq_false_iff_not]
  omega

/-- A digit of a unit that is not the last one. -/
theorem readStringFrom_digit {c : Char} {digit value due : Nat} (hDigit : hexDigit? c = some digit)
    (hDue : 1 < due) (rest : Text) :
    readStringFrom true (.unit value due none) (c :: rest) =
      readStringFrom true (.unit (value * 16 + digit) (due - 1) none) rest := by
  rw [readStringFrom, hDigit]
  exact if_pos hDue

/-- The escape of a unit that is a character. -/
theorem readString_unit {a b d e c : Char} {i j k l : Nat} (ha : hexDigit? a = some i)
    (hb : hexDigit? b = some j) (hd : hexDigit? d = some k) (he : hexDigit? e = some l)
    (hValue : (((0 * 16 + i) * 16 + j) * 16 + k) * 16 + l = c.toNat)
    (h : readString rest = .ok (text, after)) :
    readString ('\\' :: 'u' :: a :: b :: d :: e :: rest) = .ok (c :: text, after) := by
  obtain ⟨hLeading, hTrailing⟩ := not_surrogate_toNat c
  have hLong : ¬ lacksUnit (a :: b :: d :: e :: rest) := by
    rw [lacksUnit_cons]
    exact Bool.false_ne_true
  rw [readString] at h ⊢
  rw [readStringFrom, if_neg (by decide), if_pos rfl, readStringFrom, if_pos rfl, if_neg hLong,
    readStringFrom_digit ha (by decide), readStringFrom_digit hb (by decide),
    readStringFrom_digit hd (by decide), readStringFrom, he]
  simp only [hValue, hLeading, hTrailing, h, Char.ofNat_toNat, Bool.not_true, Bool.false_eq_true,
    if_false]
  rfl

theorem readString_controlEscape {c : Char} (hc : c.val < 0x20)
    (h : readString rest = .ok (text, after)) :
    readString (controlEscape c ++ rest) = .ok (c :: text, after) := by
  have hAll : ∀ n < 32,
      List.replicate (4 - (Nat.toDigits 16 n).length) '0' ++ Nat.toDigits 16 n =
          ['0', '0', (n / 16).digitChar, (n % 16).digitChar] ∧
        hexDigit? (n / 16).digitChar = some (n / 16) ∧
        hexDigit? (n % 16).digitChar = some (n % 16) := by decide +kernel
  obtain ⟨hDigits, hHigh, hLow⟩ := hAll c.toNat hc
  have hZero : hexDigit? '0' = some 0 := by decide
  have hText : controlEscape c =
      ['\\', 'u', '0', '0', (c.toNat / 16).digitChar, (c.toNat % 16).digitChar] := by
    rw [controlEscape, List.append_assoc]
    exact congrArg ("\\u".toList ++ ·) hDigits
  rw [hText]
  exact readString_unit hZero hZero hHigh hLow (by omega) h

/-- A character that needs no escape. -/
theorem readString_cons {c : Char} (hQuote : c ≠ '"') (hSlash : c ≠ '\\') (hc : ¬ c.val < 0x20)
    (h : readString rest = .ok (text, after)) :
    readString (c :: rest) = .ok (c :: text, after) := by
  rw [readString] at h ⊢
  rw [readStringFrom, if_neg hQuote, if_neg hSlash, if_neg hc, h]
  rfl

/-- A character is read back as it was before it was escaped. -/
theorem readString_escapeChar (c : Char) (h : readString rest = .ok (text, after)) :
    readString (escapeChar c ++ rest) = .ok (c :: text, after) := by
  unfold escapeChar
  -- Seven characters have an escape of one letter; of the others, the control characters a unit.
  split
  · exact readString_simple (by decide) rfl h
  · exact readString_simple (by decide) rfl h
  · exact readString_simple (by decide) rfl h
  · exact readString_simple (by decide) rfl h
  · exact readString_simple (by decide) rfl h
  · exact readString_simple (by decide) rfl h
  · exact readString_simple (by decide) rfl h
  · rename_i hQuote hSlash _ _ _ _ _
    split
    · exact readString_controlEscape ‹_› h
    · exact readString_cons hQuote hSlash ‹_› h

end

theorem readString_flatMap (text after : Text) :
    readString (text.flatMap escapeChar ++ '"' :: after) = .ok (text, after) := by
  induction text with
  | nil => rw [readString, List.flatMap_nil, List.nil_append, readStringFrom, if_pos rfl]
  | cons c text ih =>
    rw [List.flatMap_cons, List.append_assoc]
    exact readString_escapeChar c ih

theorem printString_append (text after : Text) :
    printString text ++ after = '"' :: (text.flatMap escapeChar ++ '"' :: after) := by
  simp only [printString, List.cons_append, List.append_assoc, List.nil_append]

/-- A string is read back. -/
theorem readText_printString (text after : Text) :
    readText (printString text ++ after) = .ok (text, after) := by
  rw [printString_append, readText, bind_of_ok (peek_cons (by decide) _ _), if_pos rfl,
    bind_of_ok (advance_cons _ _), readString_flatMap]

theorem readAtom_printString (text after : Text) :
    readAtom '"' (printString text ++ after) = .ok (.string text, after) := by
  rw [printString_append, readAtom, if_neg (by decide), if_neg (by decide), if_neg (by decide),
    if_neg (by decide), if_neg (by decide), if_pos rfl, bind_of_ok (advance_cons _ _),
    bind_of_ok (readString_flatMap text after)]
  rfl

/-! ## Numerals -/

/-- Digits do not go on into a text. -/
def EndsDigits (after : Text) : Prop := ∀ c ∈ after.head?, c.isDigit = false

/-- A numeral does not go on into a text. -/
def EndsNumeral (after : Text) : Prop :=
  ∀ c ∈ after.head?, c.isDigit = false ∧ c ∉ ['.', 'e', 'E']

theorem endsNumeral_cons {c : Char} (hDigit : c.isDigit = false) (hPart : c ∉ ['.', 'e', 'E'])
    (rest : Text) : EndsNumeral (c :: rest) := by
  rintro d ⟨⟩
  exact ⟨hDigit, hPart⟩

theorem EndsNumeral.endsDigits {after : Text} (h : EndsNumeral after) : EndsDigits after :=
  fun c hc => (h c hc).1

/-- One or more digits. -/
structure IsDigits (digits : Text) : Prop where
  nonempty : digits ≠ []
  digits : ∀ c ∈ digits, c.isDigit

theorem isDigits_ofNat (n : Nat) : IsDigits (ofNat n) :=
  ⟨Nat.toDigits_ne_nil, fun _ => isDigit_of_mem_ofNat⟩

theorem readDigits_append (atEnd : Fault) {digits after : Text} (hDigits : IsDigits digits)
    (h : EndsDigits after) : readDigits atEnd (digits ++ after) = .ok (digits, after) := by
  have hEnd : after.takeWhile Char.isDigit = [] ∧ after.dropWhile Char.isDigit = after := by
    cases after with
    | nil => exact ⟨rfl, rfl⟩
    | cons c rest =>
      have hc : ¬ c.isDigit := by simpa using h c rfl
      exact ⟨List.takeWhile_cons_of_neg hc, List.dropWhile_cons_of_neg hc⟩
  have hTake : (digits ++ after).takeWhile Char.isDigit = digits := by
    rw [List.takeWhile_append_of_pos hDigits.digits, hEnd.1, List.append_nil]
  have hDrop : (digits ++ after).dropWhile Char.isDigit = after := by
    rw [List.dropWhile_append_of_pos hDigits.digits, hEnd.2]
  cases digits with
  | nil => exact absurd rfl hDigits.nonempty
  | cons c digits =>
    rw [List.cons_append] at hTake hDrop ⊢
    rw [readDigits, if_pos (hDigits.digits c List.mem_cons_self), hTake, hDrop]

theorem readWhole_append (atEnd : Fault) {digits after : Text} (hDigits : IsDigits digits)
    (hZero : digits.head? = some '0' → digits = ['0']) (h : EndsDigits after) :
    readWhole atEnd (digits ++ after) = .ok (digits, after) := by
  have hLeading : ¬ (digits.head? = some '0' ∧ digits ≠ ['0']) := fun hBoth =>
    hBoth.2 (hZero hBoth.1)
  rw [readWhole]
  change (readDigits atEnd (digits ++ after) >>= _) = _
  rw [readDigits_append atEnd hDigits h]
  exact if_neg hLeading

theorem readFraction_append (atEnd : Fault) {digits after : Text} (hDigits : IsDigits digits)
    (h : EndsDigits after) :
    readFraction atEnd ('.' :: (digits ++ after)) = .ok (some digits, after) := by
  change (readDigits atEnd (digits ++ after) >>= _) = _
  rw [readDigits_append atEnd hDigits h]
  rfl

/-- A text does not begin with the point of a fraction. -/
theorem readFraction_of_head (atEnd : Fault) {after : Text} (h : after.head? ≠ some '.') :
    readFraction atEnd after = .ok (none, after) := by
  unfold readFraction
  split
  · exact absurd rfl h
  · rfl

theorem readExponent_append (atEnd : Fault) (negative : Bool) {digits after : Text}
    (hDigits : IsDigits digits) (h : EndsDigits after) :
    readExponent atEnd ('e' :: (if negative then '-' else '+') :: (digits ++ after)) =
      .ok (some (negative, digits), after) := by
  rw [readExponent, if_pos (.inl rfl)]
  cases negative with
  | true =>
    change (readDigits atEnd (digits ++ after) >>= _) = _
    rw [readDigits_append atEnd hDigits h]
    rfl
  | false =>
    change (readDigits atEnd (digits ++ after) >>= _) = _
    rw [readDigits_append atEnd hDigits h]
    rfl

theorem readExponent_of_endsNumeral (atEnd : Fault) {after : Text} (h : EndsNumeral after) :
    readExponent atEnd after = .ok (none, after) := by
  cases after with
  | nil => rfl
  | cons c rest =>
    have hc : ¬ (c = 'e' ∨ c = 'E') := by
      rintro (rfl | rfl)
      · exact (h 'e' rfl).2 (by decide)
      · exact (h 'E' rfl).2 (by decide)
    rw [readExponent, if_neg hc]

theorem EndsNumeral.head?_ne {after : Text} (h : EndsNumeral after) : after.head? ≠ some '.' :=
  fun hHead => (h '.' hHead).2 List.mem_cons_self

/-! ## Integers -/

theorem takeDigits_eq {digits : Text} {n : Nat}
    (h : Nat.ofDigitChars 10 digits n < Number.unsignedBound) :
    takeDigits n digits = (Nat.ofDigitChars 10 digits n, []) := by
  induction digits generalizing n with
  | nil => rfl
  | cons c digits ih =>
    rw [Nat.ofDigitChars_cons, Nat.mul_comm] at h ⊢
    have hNext : n * 10 + digitValue c < Number.unsignedBound :=
      Nat.lt_of_le_of_lt (le_ofDigitChars digits _) h
    rw [takeDigits, if_pos hNext]
    exact ih h

theorem takeDigits_ofNat {n : Nat} (h : n < Number.unsignedBound) :
    takeDigits 0 (ofNat n) = (n, []) := by
  have hBound : Nat.ofDigitChars 10 (ofNat n) 0 < Number.unsignedBound := by
    rwa [ofDigitChars_ofNat]
  rw [takeDigits_eq hBound, ofDigitChars_ofNat]

theorem ofNat_eq_zero_of_head {n : Nat} (h : (ofNat n).head? = some '0') : ofNat n = ['0'] := by
  rcases Nat.eq_zero_or_pos n with rfl | hPos
  · decide
  · exact absurd h (head?_ofNat_ne hPos)

theorem readWhole_ofNat (atEnd : Fault) (n : Nat) {after : Text} (h : EndsNumeral after) :
    readWhole atEnd (ofNat n ++ after) = .ok (ofNat n, after) :=
  readWhole_append atEnd (isDigits_ofNat n) ofNat_eq_zero_of_head h.endsDigits

theorem readNumeral_ofNat (atEnd : Fault) (n : Nat) {after : Text} (h : EndsNumeral after) :
    readNumeral atEnd (ofNat n ++ after) = .ok ({ whole := ofNat n }, after) := by
  rw [readNumeral, bind_of_ok (readWhole_ofNat atEnd n h),
    bind_of_ok (readFraction_of_head atEnd h.head?_ne),
    bind_of_ok (readExponent_of_endsNumeral atEnd h)]
  rfl

theorem readNumber_ofNat {negative : Bool} {n : Nat} {number : Number} {after : Text}
    (hNumber : Number.ofWhole? negative (ofNat n) = some number) (h : EndsNumeral after) :
    readNumber negative (ofNat n ++ after) = .ok (number, after) := by
  have hNumeral : Number.ofNumeral? negative { whole := ofNat n } = some number := hNumber
  rw [readNumber, bind_of_ok (readNumeral_ofNat .endInValue n h), hNumeral]
  rfl

/-- An integer fits 64 bits, with or without a sign. -/
def FitsWord (value : Int) : Prop :=
  -(Number.signedBound : Int) ≤ value ∧ value < Number.unsignedBound

instance : DecidablePred FitsWord := fun _ => inferInstanceAs (Decidable (_ ∧ _))

theorem signedBound_lt : Number.signedBound < Number.unsignedBound := by decide

theorem ofWhole?_natAbs {value : Int} (h : FitsWord value) :
    Number.ofWhole? (decide (value < 0)) (ofNat value.natAbs) = some (.integer value) := by
  obtain ⟨hLow, hHigh⟩ := h
  have hBounds := signedBound_lt
  have hTake : takeDigits 0 (ofNat value.natAbs) = (value.natAbs, []) :=
    takeDigits_ofNat (by omega)
  rw [Number.ofWhole?, hTake]
  by_cases hNegative : value < 0
  · have hMagnitude : 0 < value.natAbs ∧ value.natAbs ≤ Number.signedBound := by omega
    have hValue : -(value.natAbs : Int) = value := by omega
    simp only [hNegative, decide_true, ne_eq, not_true_eq_false, if_false, Bool.not_true,
      Bool.false_eq_true, hMagnitude, and_self, if_true, hValue]
  · have hValue : (value.natAbs : Int) = value := by omega
    simp only [hNegative, decide_false, ne_eq, not_true_eq_false, if_false, Bool.not_false,
      if_true, hValue]

/-- A numeral behind its sign. -/
def signed (negative : Bool) (numeral : Text) : Text := (if negative then ['-'] else []) ++ numeral

theorem ofInt_eq_signed (value : Int) :
    ofInt value = signed (decide (value < 0)) (ofNat value.natAbs) := by
  by_cases hNegative : value < 0
  · rw [ofInt, if_pos hNegative, decide_eq_true hNegative]
    rfl
  · rw [ofInt, if_neg hNegative, decide_eq_false hNegative]
    rfl

/-- The characters that a number begins with. -/
def BeginsNumber (c : Char) : Prop := c.isDigit ∨ c = '-'

theorem BeginsNumber.ne {c d : Char} (h : BeginsNumber c) (hDigit : d.isDigit = false)
    (hMinus : d ≠ '-') : c ≠ d := by
  rintro rfl
  rcases h with h | h
  · rw [hDigit] at h
    cases h
  · exact hMinus h

theorem BeginsNumber.isBlank {c : Char} (h : BeginsNumber c) : isBlank c = false := by
  simp only [Reader.isBlank, Bool.or_eq_false_iff, decide_eq_false_iff_not]
  exact ⟨⟨⟨h.ne rfl (by decide), h.ne rfl (by decide)⟩, h.ne rfl (by decide)⟩,
    h.ne rfl (by decide)⟩

theorem exists_signed_eq_cons (negative : Bool) {numeral : Text}
    (h : ∃ c rest, numeral = c :: rest ∧ c.isDigit) :
    ∃ c rest, signed negative numeral = c :: rest ∧ BeginsNumber c := by
  obtain ⟨c, rest, rfl, hc⟩ := h
  cases negative with
  | true => exact ⟨'-', c :: rest, rfl, .inr rfl⟩
  | false => exact ⟨c, rest, rfl, .inl hc⟩

/-- The character that an integer begins with. -/
theorem exists_ofInt_eq_cons (value : Int) :
    ∃ c digits, ofInt value = c :: digits ∧ BeginsNumber c := by
  rw [ofInt_eq_signed]
  exact exists_signed_eq_cons _ (exists_ofNat_eq_cons value.natAbs)

/-- A number is read by its sign and what stands behind it. -/
theorem readAtom_signed {negative : Bool} {numeral after : Text} {number : Number}
    (hDigit : ∃ c rest, numeral = c :: rest ∧ c.isDigit)
    (hNumber : readNumber negative (numeral ++ after) = .ok (number, after)) {c : Char}
    {rest : Text} (hText : signed negative numeral = c :: rest) :
    readAtom c (signed negative numeral ++ after) = .ok (.number number, after) := by
  cases negative with
  | true =>
    cases hText
    rw [signed, if_pos rfl, List.append_assoc, List.cons_append, List.nil_append, readAtom,
      if_neg (by decide), if_neg (by decide), if_neg (by decide), if_pos rfl,
      bind_of_ok (advance_cons _ _), bind_of_ok hNumber]
    rfl
  | false =>
    obtain ⟨d, digits, rfl, hDigit⟩ := hDigit
    cases hText
    have hBegins : BeginsNumber c := .inl hDigit
    have hMinus : c ≠ '-' := by
      rintro rfl
      cases hDigit
    change readAtom c (c :: rest ++ after) = _
    rw [readAtom, if_neg (hBegins.ne rfl (by decide)), if_neg (hBegins.ne rfl (by decide)),
      if_neg (hBegins.ne rfl (by decide)), if_neg hMinus, if_pos hDigit, bind_of_ok hNumber]
    rfl

/-- An integer is read back. -/
theorem readAtom_ofInt {value : Int} (hFits : FitsWord value) {after : Text}
    (h : EndsNumeral after) {c : Char} {digits : Text} (hText : ofInt value = c :: digits) :
    readAtom c (ofInt value ++ after) = .ok (.number (.integer value), after) := by
  rw [ofInt_eq_signed] at hText ⊢
  exact readAtom_signed (exists_ofNat_eq_cons _) (readNumber_ofNat (ofWhole?_natAbs hFits) h) hText

/-- A value that is neither a list nor an object needs no room. -/
theorem readValue_of_atom {c : Char} (hBlank : isBlank c = false) (hList : c ≠ '[')
    (hObject : c ≠ '\x7b') (room : Nat) (rest : Text) :
    readValue room (c :: rest) = readAtom c (c :: rest) := by
  cases room with
  | zero =>
    rw [readValue, bind_of_ok (peek_cons hBlank _ _), if_neg (not_or.mpr ⟨hList, hObject⟩)]
  | succ room =>
    rw [readValue, bind_of_ok (peek_cons hBlank _ _), if_neg hList, if_neg hObject]

end Formulary.Json
