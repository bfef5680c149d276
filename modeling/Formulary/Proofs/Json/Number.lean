import Formulary.Proofs.Decimal.Shortest
import Formulary.Proofs.Json.Lexeme
import Formulary.Proofs.Json.Yields

/-!
# Printed numbers are read

Every number that is read has a text that is read again (`readAtom_number`). For an integer of 64
bits it is read as the same integer. The text of a magnitude has a fraction or an exponent
(`exists_lays`), and reading it may round twice, so that another magnitude can be read than was
printed (`Number.reread`); but it is always one in range, and zero stays zero (`reread_of_isWhole`).
-/

namespace Formulary.Json

open Text Reader

/-! ## Numerals with a fraction or an exponent -/

namespace Numeral

/-- The text of a fraction. -/
def fractionText : Option Text → Text
  | none => []
  | some digits => '.' :: digits

/-- The text of an exponent. -/
def exponentText : Option (Bool × Text) → Text
  | none => []
  | some (negative, digits) => 'e' :: (if negative then '-' else '+') :: digits

/-- The text of a numeral. -/
def text (numeral : Numeral) : Text :=
  numeral.whole ++ (fractionText numeral.fraction ++ exponentText numeral.exponent)

/-- The parts of a numeral are digits, and the whole part begins with a zero only when it is one. -/
structure IsWellFormed (numeral : Numeral) : Prop where
  whole : IsDigits numeral.whole
  zero : numeral.whole.head? = some '0' → numeral.whole = ['0']
  fraction : ∀ digits ∈ numeral.fraction, IsDigits digits
  exponent : ∀ part ∈ numeral.exponent, IsDigits part.2

theorem head?_exponentText {exponent : Option (Bool × Text)} {after : Text}
    (h : EndsNumeral after) :
    ∀ c ∈ (exponentText exponent ++ after).head?, c.isDigit = false ∧ c ≠ '.' := by
  cases exponent with
  | none =>
    intro c hc
    obtain ⟨hDigit, hPart⟩ := h c hc
    exact ⟨hDigit, fun hPoint => hPart (hPoint ▸ List.mem_cons_self)⟩
  | some part =>
    rintro c ⟨⟩
    exact ⟨rfl, by decide⟩

theorem readFraction_text (atEnd : Fault) {fraction : Option Text} {after : Text}
    (hDigits : ∀ digits ∈ fraction, IsDigits digits)
    (hAfter : ∀ c ∈ after.head?, c.isDigit = false ∧ c ≠ '.') :
    readFraction atEnd (fractionText fraction ++ after) = .ok (fraction, after) := by
  cases fraction with
  | none => exact readFraction_of_head atEnd fun hHead => (hAfter '.' hHead).2 rfl
  | some digits =>
    exact readFraction_append atEnd (hDigits digits rfl) fun c hc => (hAfter c hc).1

theorem readExponent_text (atEnd : Fault) {exponent : Option (Bool × Text)} {after : Text}
    (hDigits : ∀ part ∈ exponent, IsDigits part.2) (hAfter : EndsNumeral after) :
    readExponent atEnd (exponentText exponent ++ after) = .ok (exponent, after) := by
  cases exponent with
  | none => exact readExponent_of_endsNumeral atEnd hAfter
  | some part =>
    exact readExponent_append atEnd part.1 (hDigits part rfl) hAfter.endsDigits

/-- A numeral is read by its parts. -/
theorem readNumeral_text (atEnd : Fault) {numeral : Numeral} (h : numeral.IsWellFormed)
    {after : Text} (hAfter : EndsNumeral after) :
    readNumeral atEnd (numeral.text ++ after) = .ok (numeral, after) := by
  have hExponent : ∀ c ∈ (exponentText numeral.exponent ++ after).head?,
      c.isDigit = false ∧ c ≠ '.' := head?_exponentText hAfter
  have hFraction : EndsDigits
      (fractionText numeral.fraction ++ (exponentText numeral.exponent ++ after)) := by
    cases numeral.fraction with
    | none => exact fun c hc => (hExponent c hc).1
    | some digits =>
      rintro c ⟨⟩
      rfl
  rw [text, List.append_assoc, List.append_assoc, readNumeral,
    bind_of_ok (readWhole_append atEnd h.whole h.zero hFraction),
    bind_of_ok (readFraction_text atEnd h.fraction hExponent),
    bind_of_ok (readExponent_text atEnd h.exponent hAfter)]
  rfl

/-! ### Their value -/

/-- All digits of a numeral before its exponent, as one number. -/
def significand (numeral : Numeral) : Nat :=
  Nat.ofDigitChars 10 (numeral.whole ++ numeral.fraction.getD []) 0

/-- What an exponent denotes. -/
def exponentValue : Option (Bool × Text) → Int
  | none => 0
  | some (true, digits) => -(Nat.ofDigitChars 10 digits 0 : Int)
  | some (false, digits) => (Nat.ofDigitChars 10 digits 0 : Int)

/-- The power of ten by which the digits are scaled. -/
def scale (numeral : Numeral) : Int :=
  -((numeral.fraction.getD []).length : Int) + exponentValue numeral.exponent

theorem digitsValue_eq (digits : Text) : digitsValue digits = Nat.ofDigitChars 10 digits 0 := by
  have hStep : ∀ n, digits.foldl (fun n c => n * 10 + digitValue c) n =
      Nat.ofDigitChars 10 digits n := by
    induction digits with
    | nil => exact fun n => rfl
    | cons c digits ih =>
      intro n
      rw [List.foldl_cons, ih, Nat.ofDigitChars_cons, Nat.mul_comm]
      rfl
  exact hStep 0

/-- A numeral with a fraction or an exponent whose digits fit 64 bits denotes a magnitude. -/
theorem ofNumeral?_eq {numeral : Numeral}
    (hParts : numeral.fraction ≠ none ∨ numeral.exponent ≠ none)
    (hBound : numeral.significand < Number.unsignedBound) (negative : Bool) :
    Number.ofNumeral? negative numeral =
      Number.ofDecimal? negative numeral.significand numeral.scale := by
  obtain ⟨whole, fraction, exponent⟩ := numeral
  have hValue : Nat.ofDigitChars 10 (fraction.getD []) (Nat.ofDigitChars 10 whole 0) <
      Number.unsignedBound := by
    rw [← Nat.ofDigitChars_append]
    exact hBound
  have hWhole := takeDigits_eq (Nat.lt_of_le_of_lt (le_ofDigitChars _ _) hValue)
  have hAll := takeDigits_eq hValue
  rw [← Nat.ofDigitChars_append] at hAll
  unfold Number.ofNumeral?
  split
  · rename_i hFraction hExponent
    exact absurd ⟨hFraction, hExponent⟩ (not_and_or.mpr hParts)
  · simp only [hWhole, hAll, List.length_nil, Nat.sub_zero, Nat.cast_zero, zero_sub, digitsValue_eq,
      significand, scale]
    rcases exponent with _ | ⟨_ | _, digits⟩ <;> rfl

end Numeral

/-! ## The text of a magnitude -/

/-- A numeral with a fraction or an exponent that writes digits with the point at a place. It
denotes them, or it has digits behind its point. -/
structure Numeral.Lays (numeral : Numeral) (digits : Text) (point : Int) : Prop where
  text : numeral.text = Decimal.Binary.layOut digits point
  wellFormed : numeral.IsWellFormed
  parts : numeral.fraction ≠ none ∨ numeral.exponent ≠ none
  bound : numeral.significand < Number.unsignedBound
  value : numeral.scale < 0 ∨
    numeral.significand = Nat.ofDigitChars 10 digits 0 ∧ numeral.scale = point - digits.length

section

variable {digits : Text} {point : Int}

theorem isDigits_append {first second : Text} (h : IsDigits first)
    (hSecond : ∀ c ∈ second, c.isDigit) : IsDigits (first ++ second) where
  nonempty := List.append_ne_nil_of_left_ne_nil h.nonempty second
  digits c hc := (List.mem_append.mp hc).elim (h.digits c) (hSecond c)

theorem isDigit_of_mem_replicate {c : Char} {n : Nat} (h : c ∈ List.replicate n '0') :
    c.isDigit := by
  rw [List.eq_of_mem_replicate h]
  rfl

theorem isDigits_zero : IsDigits ['0'] :=
  ⟨List.cons_ne_nil _ _, fun _ => @isDigit_of_mem_replicate _ 1⟩

/-- The point stands at the end of the digits or behind it. -/
theorem lays_whole (hDigits : IsDigits digits) (hFirst : digits.head? ≠ some '0')
    (hPoint : 0 < point ∧ point ≤ 16) (hLong : digits.length ≤ point.toNat) :
    Numeral.Lays ⟨digits ++ List.replicate (point.toNat - digits.length) '0', some ['0'], none⟩
      digits point := by
  have hWhole : IsDigits (digits ++ List.replicate (point.toNat - digits.length) '0') :=
    isDigits_append hDigits fun _ => isDigit_of_mem_replicate
  refine ⟨?_, ⟨hWhole, fun hHead => ?_, ?_, nofun⟩, .inl (Option.some_ne_none _), ?_, .inl ?_⟩
  · rw [Decimal.Binary.layOut, if_pos hPoint]
    exact (if_pos hLong).symm
  · rw [List.head?_append_of_ne_nil _ hDigits.nonempty] at hHead
    exact absurd hHead hFirst
  · rintro _ ⟨⟩
    exact isDigits_zero
  · -- There are at most seventeen digits, the zero behind the point included.
    have hLength : (digits ++ List.replicate (point.toNat - digits.length) '0' ++ ['0']).length ≤
        17 := by
      rw [List.length_append, List.length_append, List.length_replicate, List.length_singleton]
      omega
    have hLess := ofDigitChars_lt (isDigits_append hWhole isDigits_zero.digits).digits 0
    rw [Nat.zero_add, Nat.mul_one] at hLess
    calc Nat.ofDigitChars 10 _ 0 < Nat.pow 10 _ := hLess
      _ ≤ Nat.pow 10 17 := Nat.pow_le_pow_right (by decide) hLength
      _ < Number.unsignedBound := by decide
  · change -(1 : Int) + 0 < 0
    decide

/-- The point stands between the digits. -/
theorem lays_between (hDigits : IsDigits digits) (hFirst : digits.head? ≠ some '0')
    (hBound : Nat.ofDigitChars 10 digits 0 < Number.unsignedBound)
    (hPoint : 0 < point ∧ point ≤ 16) (hShort : point.toNat < digits.length) :
    Numeral.Lays ⟨digits.take point.toNat, some (digits.drop point.toNat), none⟩ digits point := by
  have hJoin : Numeral.significand
      ⟨digits.take point.toNat, some (digits.drop point.toNat), none⟩ =
        Nat.ofDigitChars 10 digits 0 := by
    rw [Numeral.significand, Option.getD_some, List.take_append_drop]
  have hTake : digits.take point.toNat ≠ [] := by
    refine List.ne_nil_of_length_pos ?_
    rw [List.length_take]
    omega
  refine ⟨?_, ⟨⟨hTake, ?_⟩, fun hHead => ?_, ?_, nofun⟩, .inl (Option.some_ne_none _), ?_, ?_⟩
  · rw [Decimal.Binary.layOut, if_pos hPoint]
    simp only [if_neg (Nat.not_le.mpr hShort)]
    simp only [Numeral.text, Numeral.fractionText, Numeral.exponentText, List.append_nil]
  · exact fun c hc => hDigits.digits c (List.mem_of_mem_take hc)
  · have hPos : point.toNat ≠ 0 := by omega
    rw [List.head?_take, if_neg hPos] at hHead
    exact absurd hHead hFirst
  · rintro _ ⟨⟩
    refine ⟨List.ne_nil_of_length_pos ?_, fun c hc => hDigits.digits c (List.mem_of_mem_drop hc)⟩
    rw [List.length_drop]
    omega
  · rwa [hJoin]
  · refine .inr ⟨hJoin, ?_⟩
    simp only [Numeral.scale, Numeral.exponentValue, Option.getD_some, List.length_drop]
    omega

/-- The point stands before the digits, and close to them. -/
theorem lays_before (hDigits : IsDigits digits)
    (hBound : Nat.ofDigitChars 10 digits 0 < Number.unsignedBound)
    (hPoint : -5 < point ∧ point ≤ 0) :
    Numeral.Lays ⟨['0'], some (List.replicate (-point).toNat '0' ++ digits), none⟩ digits
      point := by
  have hValue : Numeral.significand
      ⟨['0'], some (List.replicate (-point).toNat '0' ++ digits), none⟩ =
        Nat.ofDigitChars 10 digits 0 := by
    rw [Numeral.significand, Option.getD_some, Nat.ofDigitChars_append, Nat.ofDigitChars_append,
      Nat.ofDigitChars_replicate_zero]
    rfl
  refine ⟨?_, ⟨isDigits_zero, fun _ => rfl, ?_, nofun⟩, .inl (Option.some_ne_none _), ?_, ?_⟩
  · have hNot : ¬ (0 < point ∧ point ≤ 16) := by omega
    rw [Decimal.Binary.layOut, if_neg hNot, if_pos hPoint]
    simp [Numeral.text, Numeral.fractionText, Numeral.exponentText]
  · rintro _ ⟨⟩
    refine ⟨List.append_ne_nil_of_right_ne_nil _ hDigits.nonempty, fun c hc => ?_⟩
    exact (List.mem_append.mp hc).elim isDigit_of_mem_replicate (hDigits.digits c)
  · rwa [hValue]
  · refine .inr ⟨hValue, ?_⟩
    simp only [Numeral.scale, Numeral.exponentValue, Option.getD_some, List.length_append,
      List.length_replicate]
    omega

/-- The digits behind the first one as a fraction. -/
def fractionOf : Text → Option Text
  | [] => none
  | rest => some rest

/-- The point is far away and written as an exponent. -/
theorem lays_exponent {c : Char} {rest : Text} (hDigits : IsDigits (c :: rest)) (hFirst : c ≠ '0')
    (hBound : Nat.ofDigitChars 10 (c :: rest) 0 < Number.unsignedBound)
    (hFar : ¬ (0 < point ∧ point ≤ 16)) (hNear : ¬ (-5 < point ∧ point ≤ 0)) :
    Numeral.Lays ⟨[c], fractionOf rest, some (decide (point ≤ 0), ofNat (point - 1).natAbs)⟩
      (c :: rest) point := by
  have hRest : (fractionOf rest).getD [] = rest := by cases rest <;> rfl
  have hValue : Numeral.significand
      ⟨[c], fractionOf rest, some (decide (point ≤ 0), ofNat (point - 1).natAbs)⟩ =
        Nat.ofDigitChars 10 (c :: rest) 0 := by
    rw [Numeral.significand, hRest, List.singleton_append]
  refine ⟨?_, ⟨⟨List.cons_ne_nil _ _, ?_⟩, fun hHead => ?_, ?_, ?_⟩,
    .inr (Option.some_ne_none _), ?_, ?_⟩
  · rw [Decimal.Binary.layOut, if_neg hFar, if_neg hNear]
    by_cases hSign : 0 < point
    · have hNot : ¬ point ≤ 0 := by omega
      cases rest <;> simp [Numeral.text, Numeral.fractionText, Numeral.exponentText, fractionOf,
        hSign, hNot]
    · have hLow : point ≤ 0 := by omega
      cases rest <;> simp [Numeral.text, Numeral.fractionText, Numeral.exponentText, fractionOf,
        hSign, hLow]
  · intro d hd
    rw [List.mem_singleton.mp hd]
    exact hDigits.digits c List.mem_cons_self
  · exact absurd (Option.some.inj hHead) hFirst
  · intro digits hFraction
    cases rest with
    | nil => cases hFraction
    | cons d rest =>
      cases hFraction
      exact ⟨List.cons_ne_nil _ _, fun e he => hDigits.digits e (List.mem_cons_of_mem _ he)⟩
  · rintro _ ⟨⟩
    exact isDigits_ofNat _
  · rwa [hValue]
  · refine .inr ⟨hValue, ?_⟩
    rw [Numeral.scale, hRest, List.length_cons]
    by_cases hSign : point ≤ 0
    · simp only [hSign, decide_true, Numeral.exponentValue, ofDigitChars_ofNat]
      omega
    · simp only [hSign, decide_false, Numeral.exponentValue, ofDigitChars_ofNat]
      omega

/-- Wherever the point stands, digits are laid out as a numeral. -/
theorem exists_lays {c : Char} {rest : Text} (hDigits : IsDigits (c :: rest)) (hFirst : c ≠ '0')
    (hBound : Nat.ofDigitChars 10 (c :: rest) 0 < Number.unsignedBound) (point : Int) :
    ∃ numeral : Numeral, numeral.Lays (c :: rest) point := by
  have hHead : (c :: rest).head? ≠ some '0' := fun h => hFirst (Option.some.inj h)
  by_cases hPoint : 0 < point ∧ point ≤ 16
  · by_cases hLong : (c :: rest).length ≤ point.toNat
    · exact ⟨_, lays_whole hDigits hHead hPoint hLong⟩
    · exact ⟨_, lays_between hDigits hHead hBound hPoint (Nat.lt_of_not_le hLong)⟩
  · by_cases hNear : -5 < point ∧ point ≤ 0
    · exact ⟨_, lays_before hDigits hBound hNear⟩
    · exact ⟨_, lays_exponent hDigits hFirst hBound hPoint hNear⟩

end

/-- The text of a magnitude is a numeral that denotes a magnitude, and zero when it is zero. -/
theorem exists_numeral_of_magnitude {x : Decimal.Binary} (hx : x.IsMagnitude) :
    ∃ (numeral : Numeral) (y : Decimal.Binary), x.text = numeral.text ∧ numeral.IsWellFormed ∧
      (∀ negative, Number.ofNumeral? negative numeral = some (.binary negative y)) ∧
      (x.mantissa = 0 → y = x) := by
  by_cases hZero : x.mantissa = 0
  · have hLeast : x.exponent = Decimal.Binary.minExponent := by
      by_contra hNe
      have hNormal := hx.canonical.normal (lt_of_le_of_ne hx.canonical.least (Ne.symm hNe))
      rw [hZero] at hNormal
      exact absurd hNormal (by decide)
    have hx : x = ⟨0, Decimal.Binary.minExponent⟩ := by rw [← hZero, ← hLeast]
    subst hx
    refine ⟨⟨['0'], some ['0'], none⟩, _, rfl, ⟨isDigits_zero, fun _ => rfl, ?_, nofun⟩,
      fun _ => rfl, fun _ => rfl⟩
    rintro _ ⟨⟩
    exact isDigits_zero
  · obtain ⟨hPos, hMost, hRange⟩ := Decimal.Binary.exists_ofDecimal_shortest hx hZero
    obtain ⟨c, rest, hDigits, hFirst, hAll⟩ := Decimal.Binary.exists_trimmed_eq_cons hPos
    have hBound : Nat.ofDigitChars 10 (c :: rest) 0 < Number.unsignedBound := by
      rw [← hDigits]
      calc Nat.ofDigitChars 10 _ 0 ≤ x.shortest.digits := Decimal.Binary.trimmed_le _
        _ ≤ Nat.pow 10 17 := hMost
        _ < Number.unsignedBound := by decide
    obtain ⟨numeral, hLays⟩ :=
      exists_lays ⟨List.cons_ne_nil _ _, hAll⟩ hFirst hBound x.shortest.point
    obtain ⟨y, hy⟩ : ∃ y, Decimal.Binary.ofDecimal numeral.significand numeral.scale = some y := by
      by_cases hNegative : numeral.scale < 0
      · exact Decimal.Binary.exists_ofDecimal_of_neg hNegative
      · obtain ⟨hSignificand, hScale⟩ := hLays.value.resolve_left hNegative
        rw [hSignificand, hScale, ← hDigits]
        refine hRange ?_
        rw [hDigits, ← hScale]
        exact Int.not_lt.mp hNegative
    refine ⟨numeral, y, ?_, hLays.wellFormed, fun negative => ?_, fun h => absurd h hZero⟩
    · rw [Decimal.Binary.text, if_neg hZero, hDigits, hLays.text]
    · rw [Numeral.ofNumeral?_eq hLays.parts hLays.bound, Number.ofDecimal?, hy]
      rfl

/-! ## Numbers -/

namespace Number

/-- A number that a reader can give: an integer of 64 bits, or a magnitude in range. -/
def IsRead : Number → Prop
  | .integer value => FitsWord value
  | .binary _ magnitude => magnitude.IsMagnitude

/-- An integer; the negative zero is one, which has no other form. -/
def IsWhole : Number → Prop
  | .integer _ => True
  | .binary _ magnitude => magnitude.mantissa = 0

instance : DecidablePred IsWhole
  | .integer _ => inferInstanceAs (Decidable True)
  | .binary _ magnitude => inferInstanceAs (Decidable (magnitude.mantissa = 0))

/-- The number that the text of a number is read as. -/
def reread (number : Number) : Number :=
  match readWholeText (readValue 0) number.text with
  | .ok (.number other) => other
  | _ => number

end Number

theorem exists_text_eq_cons {numeral : Numeral} (h : numeral.IsWellFormed) :
    ∃ c rest, numeral.text = c :: rest ∧ c.isDigit := by
  obtain ⟨c, digits, hWhole⟩ := List.exists_cons_of_ne_nil h.whole.nonempty
  refine ⟨c, _, congrArg (· ++ _) hWhole, h.whole.digits c ?_⟩
  rw [hWhole]
  exact List.mem_cons_self

theorem readNumber_text {numeral : Numeral} (h : numeral.IsWellFormed) {negative : Bool}
    {number : Number} (hNumber : Number.ofNumeral? negative numeral = some number) {after : Text}
    (hAfter : EndsNumeral after) :
    readNumber negative (numeral.text ++ after) = .ok (number, after) := by
  rw [readNumber, bind_of_ok (Numeral.readNumeral_text .endInValue h hAfter), hNumber]
  rfl

theorem text_binary (negative : Bool) (magnitude : Decimal.Binary) :
    (Number.binary negative magnitude).text = signed negative magnitude.text := rfl

/-- The text of a number is a numeral behind its sign. -/
theorem exists_text_eq_signed {number : Number} (h : number.IsRead) :
    ∃ negative numeral, number.text = signed negative (Numeral.text numeral) ∧
      numeral.IsWellFormed := by
  cases number with
  | integer value =>
    have hFormed : Numeral.IsWellFormed ⟨ofNat value.natAbs, none, none⟩ :=
      ⟨isDigits_ofNat _, ofNat_eq_zero_of_head, nofun, nofun⟩
    refine ⟨decide (value < 0), _, ?_, hFormed⟩
    rw [Numeral.text, Numeral.fractionText, Numeral.exponentText, List.append_nil, List.append_nil]
    exact ofInt_eq_signed value
  | binary negative magnitude =>
    obtain ⟨numeral, -, hText, hFormed, -⟩ := exists_numeral_of_magnitude h
    exact ⟨negative, numeral, congrArg (signed negative) hText, hFormed⟩

/-- The character that a number begins with. -/
theorem exists_number_eq_cons {number : Number} (h : number.IsRead) :
    ∃ c rest, number.text = c :: rest ∧ BeginsNumber c := by
  obtain ⟨negative, numeral, hText, hFormed⟩ := exists_text_eq_signed h
  rw [hText]
  exact exists_signed_eq_cons negative (exists_text_eq_cons hFormed)

/-- The characters of a number. -/
theorem mem_number {number : Number} (h : number.IsRead) {c : Char} (hc : c ∈ number.text) :
    c.isDigit ∨ c ∈ ['-', '.', 'e', '+'] := by
  obtain ⟨negative, ⟨whole, fraction, exponent⟩, hText, hFormed⟩ := exists_text_eq_signed h
  rw [hText, signed, Numeral.text, List.mem_append, List.mem_append, List.mem_append] at hc
  rcases hc with hSign | hWhole | hFraction | hExponent
  · cases negative with
    | true => exact .inr (List.mem_singleton.mp hSign ▸ List.mem_cons_self)
    | false => cases hSign
  · exact .inl (hFormed.whole.digits c hWhole)
  · cases fraction with
    | none => cases hFraction
    | some digits =>
      rcases List.mem_cons.mp hFraction with rfl | hDigits
      · exact .inr (by decide)
      · exact .inl ((hFormed.fraction digits rfl).digits c hDigits)
  · cases exponent with
    | none => cases hExponent
    | some part =>
      rcases List.mem_cons.mp hExponent with rfl | hBehind
      · exact .inr (by decide)
      · rcases List.mem_cons.mp hBehind with hSign | hDigits
        · rw [hSign]
          split
          · exact .inr (by decide)
          · exact .inr (by decide)
        · exact .inl ((hFormed.exponent part rfl).digits c hDigits)

/-- Whatever stands behind a number, its text is read as the same number, which is the one that was
printed if that is whole. -/
theorem exists_readAtom_number {number : Number} (h : number.IsRead) :
    ∃ other, (number.IsWhole → other = number) ∧
      ∀ after, EndsNumeral after → ∀ c rest, number.text = c :: rest →
        readAtom c (number.text ++ after) = .ok (.number other, after) := by
  cases number with
  | integer value =>
    exact ⟨.integer value, fun _ => rfl, fun after hAfter c rest hText =>
      readAtom_ofInt h hAfter hText⟩
  | binary negative magnitude =>
    obtain ⟨numeral, y, hText, hFormed, hNumber, hZero⟩ := exists_numeral_of_magnitude h
    refine ⟨.binary negative y, fun hWhole => by rw [hZero hWhole], ?_⟩
    intro after hAfter c rest hCons
    rw [text_binary, hText] at hCons ⊢
    exact readAtom_signed (exists_text_eq_cons hFormed)
      (readNumber_text hFormed (hNumber negative) hAfter) hCons

theorem reread_eq {number other : Number} (h : number.IsRead)
    (hOther : ∀ after, EndsNumeral after → ∀ c rest, number.text = c :: rest →
      readAtom c (number.text ++ after) = .ok (.number other, after)) : number.reread = other := by
  obtain ⟨c, rest, hText, hc⟩ := exists_number_eq_cons h
  have hAtom := hOther [] nofun c rest hText
  rw [List.append_nil, hText] at hAtom
  have hValue : readValue 0 (c :: rest) = .ok (.number other, []) := by
    rw [readValue_of_atom hc.isBlank (hc.ne rfl (by decide)) (hc.ne rfl (by decide)), hAtom]
  rw [Number.reread, readWholeText, hText, hValue]
  rfl

/-- The text of a number is read. -/
theorem readAtom_number {number : Number} (h : number.IsRead) {after : Text}
    (hAfter : EndsNumeral after) {c : Char} {rest : Text} (hText : number.text = c :: rest) :
    readAtom c (number.text ++ after) = .ok (.number number.reread, after) := by
  obtain ⟨other, -, hOther⟩ := exists_readAtom_number h
  rw [reread_eq h hOther]
  exact hOther after hAfter c rest hText

/-- A whole number is read back. -/
theorem reread_of_isWhole {number : Number} (h : number.IsRead) (hWhole : number.IsWhole) :
    number.reread = number := by
  obtain ⟨other, hSame, hOther⟩ := exists_readAtom_number h
  rw [reread_eq h hOther, hSame hWhole]

/-! ## Numbers that are read -/

theorem takeDigits_lt {significand : Nat} (h : significand < Number.unsignedBound)
    (digits : Text) : (takeDigits significand digits).1 < Number.unsignedBound := by
  induction digits generalizing significand with
  | nil => exact h
  | cons c digits ih =>
    rw [takeDigits]
    split
    · exact ih ‹_›
    · exact h

theorem isRead_of_ofDecimal? {negative : Bool} {significand : Nat} {exponent : Int}
    {number : Number} (hBound : significand < Number.unsignedBound)
    (h : Number.ofDecimal? negative significand exponent = some number) : number.IsRead := by
  obtain ⟨magnitude, hMagnitude, rfl⟩ := Option.map_eq_some_iff.mp h
  exact Decimal.Binary.isMagnitude_of_ofDecimal hBound hMagnitude

theorem isRead_of_ofWhole? {negative : Bool} {whole : Text} {number : Number}
    (h : Number.ofWhole? negative whole = some number) : number.IsRead := by
  have hBound : (takeDigits 0 whole).1 < Number.unsignedBound := takeDigits_lt (by decide) whole
  unfold Number.ofWhole? at h
  simp only at h
  split at h
  · exact isRead_of_ofDecimal? hBound h
  · split at h
    · cases h
      constructor
      · omega
      · exact_mod_cast hBound
    · split at h
      · cases h
        constructor <;> omega
      · exact isRead_of_ofDecimal? hBound h

theorem isRead_of_ofNumeral? {negative : Bool} {numeral : Numeral} {number : Number}
    (h : Number.ofNumeral? negative numeral = some number) : number.IsRead := by
  unfold Number.ofNumeral? at h
  split at h
  · exact isRead_of_ofWhole? h
  · exact isRead_of_ofDecimal? (takeDigits_lt (takeDigits_lt (by decide) _) _) h

theorem yields_readNumber (negative : Bool) : (readNumber negative).Yields Number.IsRead := by
  refine yields_bind fun numeral => ?_
  split
  · exact yields_pure (isRead_of_ofNumeral? ‹_›)
  · exact yields_fail _ _

end Formulary.Json
