import Formulary.Text.Utf8
import Mathlib.Data.List.Basic
import Mathlib.Data.Option.Basic

/-!
# Encoded text is read back

Bytes are read as a text exactly when they are its encoding (`decode?_eq_some_iff`), and where gaps
are tolerated, an encoded text comes back too (`decodeLossy_encode`).

A text is cut at an offset in its bytes where one of its characters begins or it ends
(`splitAt?_append`, `getD_offsetsFrom`).

A character stands in the bytes as its first byte and the bytes that are due after it (`Spells`).
The scan takes such a stretch in one go (`Spells.scanFrom_append`), and a scan without gaps takes
nothing else (`exists_spells`). That these stretches are the encodings of characters is arithmetic
on code points (`Spells.eq_encoding`, `spells_encoding`).
-/

namespace Formulary.Utf8

/-- The bytes of a text. -/
def encode (text : Text) : List UInt8 := text.flatMap String.utf8EncodeChar

/-! ## Characters in bytes -/

/-- The bytes that are due: the first of them between two bounds, and the others continuing. -/
def Continues : Nat → UInt8 → UInt8 → List UInt8 → Prop
  | 0, _, _, tail => tail = []
  | _ + 1, _, _, [] => False
  | due + 1, low, high, b :: tail => low ≤ b ∧ b ≤ high ∧ Continues due 0x80 0xBF tail

theorem continues_zero {low high : UInt8} {bytes : List UInt8} :
    Continues 0 low high bytes ↔ bytes = [] := by
  simp [Continues]

theorem continues_succ {due : Nat} {low high : UInt8} {bytes : List UInt8} :
    Continues (due + 1) low high bytes ↔
      ∃ b tail, bytes = b :: tail ∧ low ≤ b ∧ b ≤ high ∧ Continues due 0x80 0xBF tail := by
  cases bytes <;> simp [Continues]

/-- The bits of a character when further bytes are read. -/
def appendBits (bits : Nat) (tail : List UInt8) : Nat :=
  tail.foldl (fun bits b => bits * 0x40 + (b.toNat - 0x80)) bits

@[simp] theorem appendBits_nil (bits : Nat) : appendBits bits [] = bits := by
  simp only [appendBits, List.foldl_nil]

@[simp] theorem appendBits_cons (bits : Nat) (b : UInt8) (tail : List UInt8) :
    appendBits bits (b :: tail) = appendBits (bits * 0x40 + (b.toNat - 0x80)) tail := by
  simp only [appendBits, List.foldl_cons]

/-- The bytes stand for a character. -/
inductive Spells (c : Char) : List UInt8 → Prop
  | whole {b : UInt8} (hFirst : first b = .whole c) : Spells c [b]
  | longer {b low high : UInt8} {tail : List UInt8} {bits due : Nat}
      (hFirst : first b = .start (.within bits (due + 1) low high))
      (hTail : Continues (due + 1) low high tail)
      (hBits : Char.ofNat (appendBits bits tail) = c) : Spells c (b :: tail)

/-- The bytes that are due are read as the character they complete. -/
theorem scanFrom_within {bits due : Nat} {low high : UInt8} {tail : List UInt8}
    (hTail : Continues (due + 1) low high tail) (rest : List UInt8) :
    scanFrom (.within bits (due + 1) low high) (tail ++ rest) =
      some (Char.ofNat (appendBits bits tail)) :: scanFrom .between rest := by
  induction due generalizing bits low high tail with
  | zero =>
    obtain ⟨b, tail, rfl, hLow, hHigh, hNone⟩ := continues_succ.mp hTail
    obtain rfl := continues_zero.mp hNone
    simp [scanFrom, hLow, hHigh]
  | succ due ih =>
    obtain ⟨b, tail, rfl, hLow, hHigh, hNext⟩ := continues_succ.mp hTail
    simp only [List.cons_append, scanFrom, hLow, hHigh, and_self, if_true, appendBits_cons,
      Nat.lt_add_left_iff_pos, Nat.zero_lt_succ, Nat.add_sub_cancel]
    rw [ih hNext]

theorem Spells.scanFrom_append {c : Char} {bytes : List UInt8} (h : Spells c bytes)
    (rest : List UInt8) :
    scanFrom .between (bytes ++ rest) = some c :: scanFrom .between rest := by
  cases h with
  | whole hFirst => simp [scanFrom, hFirst]
  | longer hFirst hTail hBits =>
    simp only [List.cons_append, scanFrom, hFirst]
    rw [scanFrom_within hTail, hBits]

/-- A scan without gaps that is within a character reads the bytes that are due. -/
theorem exists_continues {bits due : Nat} {low high : UInt8} {bytes : List UInt8}
    (h : none ∉ scanFrom (.within bits (due + 1) low high) bytes) :
    ∃ tail rest, bytes = tail ++ rest ∧ Continues (due + 1) low high tail := by
  induction due generalizing bits low high bytes with
  | zero =>
    cases bytes with
    | nil => simp [scanFrom] at h
    | cons b rest =>
      by_cases hIn : low ≤ b ∧ b ≤ high
      · exact ⟨[b], rest, rfl,
          continues_succ.mpr ⟨b, [], rfl, hIn.1, hIn.2, continues_zero.mpr rfl⟩⟩
      · simp only [scanFrom, hIn, if_false] at h
        split at h <;> simp at h
  | succ due ih =>
    cases bytes with
    | nil => simp [scanFrom] at h
    | cons b rest =>
      by_cases hIn : low ≤ b ∧ b ≤ high
      · simp only [scanFrom, hIn, and_self, if_true, Nat.lt_add_left_iff_pos, Nat.zero_lt_succ,
          Nat.add_sub_cancel] at h
        obtain ⟨tail, rest, rfl, hTail⟩ := ih h
        exact ⟨b :: tail, rest, rfl, continues_succ.mpr ⟨b, tail, rfl, hIn.1, hIn.2, hTail⟩⟩
      · simp only [scanFrom, hIn, if_false] at h
        split at h <;> simp at h

/-! ## First bytes -/

section

variable {b : UInt8}

theorem first_one (hMost : b.toNat < 0x80) : first b = .whole (Char.ofNat b.toNat) := by
  simp only [first, UInt8.lt_iff_toNat_lt, UInt8.reduceToNat, hMost, if_true]

theorem first_two (hLeast : 0xC2 ≤ b.toNat) (hMost : b.toNat < 0xE0) :
    first b = .start (.within (b.toNat - 0xC0) 1 0x80 0xBF) := by
  simp only [first, UInt8.lt_iff_toNat_lt, UInt8.reduceToNat]
  rw [if_neg (by omega), if_neg (by omega), if_pos hMost]

theorem first_three (hLeast : 0xE0 ≤ b.toNat) (hMost : b.toNat < 0xF0) :
    first b = .start (.within (b.toNat - 0xE0) 2 (if b.toNat = 0xE0 then 0xA0 else 0x80)
      (if b.toNat = 0xED then 0x9F else 0xBF)) := by
  simp only [first, UInt8.lt_iff_toNat_lt, ← UInt8.toNat_inj, UInt8.reduceToNat]
  rw [if_neg (by omega), if_neg (by omega), if_neg (by omega)]
  grind

theorem first_four (hLeast : 0xF0 ≤ b.toNat) (hMost : b.toNat < 0xF5) :
    first b = .start (.within (b.toNat - 0xF0) 3 (if b.toNat = 0xF0 then 0x90 else 0x80)
      (if b.toNat = 0xF4 then 0x8F else 0xBF)) := by
  simp only [first, UInt8.lt_iff_toNat_lt, ← UInt8.toNat_inj, UInt8.reduceToNat]
  rw [if_neg (by omega), if_neg (by omega), if_neg (by omega), if_neg (by omega),
    if_neg (by omega), if_neg (by omega)]
  grind

theorem first_stray (hLeast : 0x80 ≤ b.toNat) (hOut : b.toNat < 0xC2 ∨ 0xF5 ≤ b.toNat) :
    first b = .stray := by
  simp only [first, UInt8.lt_iff_toNat_lt, ← UInt8.toNat_inj, UInt8.reduceToNat]
  rw [if_neg (by omega)]
  rcases hOut with hLow | hHigh
  · rw [if_pos hLow]
  · rw [if_neg (by omega), if_neg (by omega), if_neg (by omega), if_neg (by omega),
      if_neg (by omega), if_neg (by omega), if_neg (by omega), if_neg (by omega)]

end

/-- What a byte between characters means, by its number. -/
theorem first_cases (b : UInt8) :
    (b.toNat < 0x80 ∧ first b = .whole (Char.ofNat b.toNat)) ∨
    (0xC2 ≤ b.toNat ∧ b.toNat < 0xE0 ∧
      first b = .start (.within (b.toNat - 0xC0) 1 0x80 0xBF)) ∨
    (0xE0 ≤ b.toNat ∧ b.toNat < 0xF0 ∧
      first b = .start (.within (b.toNat - 0xE0) 2 (if b.toNat = 0xE0 then 0xA0 else 0x80)
        (if b.toNat = 0xED then 0x9F else 0xBF))) ∨
    (0xF0 ≤ b.toNat ∧ b.toNat < 0xF5 ∧
      first b = .start (.within (b.toNat - 0xF0) 3 (if b.toNat = 0xF0 then 0x90 else 0x80)
        (if b.toNat = 0xF4 then 0x8F else 0xBF))) ∨
    first b = .stray := by
  by_cases hOne : b.toNat < 0x80
  · exact .inl ⟨hOne, first_one hOne⟩
  by_cases hStray : b.toNat < 0xC2 ∨ 0xF5 ≤ b.toNat
  · exact .inr (.inr (.inr (.inr (first_stray (by omega) hStray))))
  by_cases hTwo : b.toNat < 0xE0
  · exact .inr (.inl ⟨by omega, hTwo, first_two (by omega) hTwo⟩)
  by_cases hThree : b.toNat < 0xF0
  · exact .inr (.inr (.inl ⟨by omega, hThree, first_three (by omega) hThree⟩))
  · exact .inr (.inr (.inr (.inl ⟨by omega, by omega, first_four (by omega) (by omega)⟩)))

/-- A scan without gaps that is between characters reads one. -/
theorem exists_spells {b : UInt8} {rest : List UInt8} (h : none ∉ scanFrom .between (b :: rest)) :
    ∃ c front after, b :: rest = front ++ after ∧ Spells c front := by
  rcases first_cases b with
    ⟨-, hFirst⟩ | ⟨-, -, hFirst⟩ | ⟨-, -, hFirst⟩ | ⟨-, -, hFirst⟩ | hFirst
  · exact ⟨_, [b], rest, rfl, .whole hFirst⟩
  · simp only [scanFrom, hFirst] at h
    obtain ⟨tail, after, rfl, hTail⟩ := exists_continues h
    exact ⟨_, b :: tail, after, rfl, .longer hFirst hTail rfl⟩
  · simp only [scanFrom, hFirst] at h
    obtain ⟨tail, after, rfl, hTail⟩ := exists_continues h
    exact ⟨_, b :: tail, after, rfl, .longer hFirst hTail rfl⟩
  · simp only [scanFrom, hFirst] at h
    obtain ⟨tail, after, rfl, hTail⟩ := exists_continues h
    exact ⟨_, b :: tail, after, rfl, .longer hFirst hTail rfl⟩
  · simp [scanFrom, hFirst] at h

/-! ## The encoding of a character -/

theorem toNat_ofNat {n : Nat} (h : n < 0xD800 ∨ 0xDFFF < n ∧ n < 0x110000) :
    (Char.ofNat n).toNat = n := by
  rw [Char.ofNat, dif_pos h]
  rfl

/-- The encoding of a character by its number. -/
theorem utf8EncodeChar_ofNat {n : Nat} (h : n < 0xD800 ∨ 0xDFFF < n ∧ n < 0x110000) :
    String.utf8EncodeChar (Char.ofNat n) =
      if n < 0x80 then [.ofNat n]
      else if n < 0x800 then [.ofNat (n / 0x40 + 0xC0), .ofNat (n % 0x40 + 0x80)]
      else if n < 0x10000 then
        [.ofNat (n / 0x1000 + 0xE0), .ofNat (n / 0x40 % 0x40 + 0x80), .ofNat (n % 0x40 + 0x80)]
      else
        [.ofNat (n / 0x40000 + 0xF0), .ofNat (n / 0x1000 % 0x40 + 0x80),
          .ofNat (n / 0x40 % 0x40 + 0x80), .ofNat (n % 0x40 + 0x80)] := by
  have hValue : (Char.ofNat n).val.toNat = n := toNat_ofNat h
  simp only [String.utf8EncodeChar, hValue, ← Nat.lt_succ_iff]
  split
  · rfl
  · split
    · rw [Nat.mod_eq_of_lt (by omega : n / 64 < 0x20)]
    · split
      · rw [Nat.mod_eq_of_lt (by omega : n / 4096 < 0x10)]
      · rw [Nat.mod_eq_of_lt (by omega : n / 262144 < 0x08)]

theorem encoding_two {b second : UInt8} (hLeast : 0xC2 ≤ b.toNat) (hMost : b.toNat < 0xE0)
    (hTail : Continues 1 0x80 0xBF [second]) :
    String.utf8EncodeChar (Char.ofNat (appendBits (b.toNat - 0xC0) [second])) = [b, second] := by
  simp only [Continues, UInt8.le_iff_toNat_le, UInt8.reduceToNat, and_true] at hTail
  simp only [appendBits_cons, appendBits_nil]
  rw [utf8EncodeChar_ofNat (by omega), if_neg (by omega), if_pos (by omega)]
  simp only [List.cons.injEq, ← UInt8.toNat_inj, UInt8.toNat_ofNat', and_true]
  omega

theorem encoding_three {b second third : UInt8} (hLeast : 0xE0 ≤ b.toNat) (hMost : b.toNat < 0xF0)
    (hTail : Continues 2 (if b.toNat = 0xE0 then 0xA0 else 0x80)
      (if b.toNat = 0xED then 0x9F else 0xBF) [second, third]) :
    String.utf8EncodeChar (Char.ofNat (appendBits (b.toNat - 0xE0) [second, third])) =
      [b, second, third] := by
  simp only [Continues, UInt8.le_iff_toNat_le, apply_ite UInt8.toNat, UInt8.reduceToNat,
    and_true] at hTail
  obtain ⟨hLow, hHigh, hThird⟩ := hTail
  have hSecond : 0x80 ≤ second.toNat ∧ second.toNat ≤ 0xBF ∧
      (b.toNat = 0xE0 → 0xA0 ≤ second.toNat) ∧ (b.toNat = 0xED → second.toNat ≤ 0x9F) := by
    split at hLow <;> split at hHigh <;> omega
  simp only [appendBits_cons, appendBits_nil]
  rw [utf8EncodeChar_ofNat (by omega), if_neg (by omega), if_neg (by omega), if_pos (by omega)]
  simp only [List.cons.injEq, ← UInt8.toNat_inj, UInt8.toNat_ofNat', and_true]
  omega

theorem encoding_four {b second third fourth : UInt8} (hLeast : 0xF0 ≤ b.toNat)
    (hMost : b.toNat < 0xF5)
    (hTail : Continues 3 (if b.toNat = 0xF0 then 0x90 else 0x80)
      (if b.toNat = 0xF4 then 0x8F else 0xBF) [second, third, fourth]) :
    String.utf8EncodeChar (Char.ofNat (appendBits (b.toNat - 0xF0) [second, third, fourth])) =
      [b, second, third, fourth] := by
  simp only [Continues, UInt8.le_iff_toNat_le, apply_ite UInt8.toNat, UInt8.reduceToNat,
    and_true] at hTail
  obtain ⟨hLow, hHigh, hThird⟩ := hTail
  have hSecond : 0x80 ≤ second.toNat ∧ second.toNat ≤ 0xBF ∧
      (b.toNat = 0xF0 → 0x90 ≤ second.toNat) ∧ (b.toNat = 0xF4 → second.toNat ≤ 0x8F) := by
    split at hLow <;> split at hHigh <;> omega
  simp only [appendBits_cons, appendBits_nil]
  rw [utf8EncodeChar_ofNat (by omega), if_neg (by omega), if_neg (by omega), if_neg (by omega)]
  simp only [List.cons.injEq, ← UInt8.toNat_inj, UInt8.toNat_ofNat', and_true]
  omega

/-- Bytes that stand for a character are its encoding. -/
theorem Spells.eq_encoding {c : Char} {bytes : List UInt8} (h : Spells c bytes) :
    bytes = String.utf8EncodeChar c := by
  cases h with
  | @whole b hFirst =>
    rcases first_cases b with
      ⟨hRange, hIs⟩ | ⟨-, -, hIs⟩ | ⟨-, -, hIs⟩ | ⟨-, -, hIs⟩ | hIs <;>
      rw [hIs] at hFirst <;> cases hFirst
    rw [utf8EncodeChar_ofNat (by omega), if_pos hRange, UInt8.ofNat_toNat]
  | @longer b low high tail bits due hFirst hTail hBits =>
    subst hBits
    rcases first_cases b with
      ⟨-, hIs⟩ | ⟨hLeast, hMost, hIs⟩ | ⟨hLeast, hMost, hIs⟩ |
      ⟨hLeast, hMost, hIs⟩ | hIs <;>
      simp only [hIs, First.start.injEq, Spot.within.injEq, reduceCtorEq] at hFirst <;>
      obtain ⟨rfl, hDue, rfl, rfl⟩ := hFirst <;> cases hDue
    · obtain ⟨second, tail, rfl, -, -, hRest⟩ := continues_succ.mp hTail
      obtain rfl := continues_zero.mp hRest
      exact (encoding_two hLeast hMost hTail).symm
    · obtain ⟨second, tail, rfl, -, -, hRest⟩ := continues_succ.mp hTail
      obtain ⟨third, tail, rfl, -, -, hRest⟩ := continues_succ.mp hRest
      obtain rfl := continues_zero.mp hRest
      exact (encoding_three hLeast hMost hTail).symm
    · obtain ⟨second, tail, rfl, -, -, hRest⟩ := continues_succ.mp hTail
      obtain ⟨third, tail, rfl, -, -, hRest⟩ := continues_succ.mp hRest
      obtain ⟨fourth, tail, rfl, -, -, hRest⟩ := continues_succ.mp hRest
      obtain rfl := continues_zero.mp hRest
      exact (encoding_four hLeast hMost hTail).symm

theorem toNat_byte {n : Nat} (h : n < 0x100) : (UInt8.ofNat n).toNat = n := by
  simp only [UInt8.toNat_ofNat']
  omega

/-- The encoding of a character stands for it. -/
theorem spells_encoding (c : Char) : Spells c (String.utf8EncodeChar c) := by
  obtain ⟨n, hValid, rfl⟩ : ∃ n, (n < 0xD800 ∨ 0xDFFF < n ∧ n < 0x110000) ∧ Char.ofNat n = c :=
    ⟨c.toNat, c.valid, Char.ofNat_toNat c⟩
  have hLast : (UInt8.ofNat (n % 0x40 + 0x80)).toNat = n % 0x40 + 0x80 := toNat_byte (by omega)
  have hNext : (UInt8.ofNat (n / 0x40 % 0x40 + 0x80)).toNat = n / 0x40 % 0x40 + 0x80 :=
    toNat_byte (by omega)
  have hThird : (UInt8.ofNat (n / 0x1000 % 0x40 + 0x80)).toNat = n / 0x1000 % 0x40 + 0x80 :=
    toNat_byte (by omega)
  rw [utf8EncodeChar_ofNat hValid]
  split
  · have hByte : (UInt8.ofNat n).toNat = n := toNat_byte (by omega)
    apply Spells.whole
    rw [first_one (by omega), hByte]
  · split
    · have hByte : (UInt8.ofNat (n / 0x40 + 0xC0)).toNat = n / 0x40 + 0xC0 :=
        toNat_byte (by omega)
      refine .longer (first_two (by omega) (by omega)) ?_ (congrArg Char.ofNat ?_)
      · simp only [Continues, UInt8.le_iff_toNat_le, UInt8.reduceToNat, hLast, and_true]
        omega
      · simp only [appendBits_cons, appendBits_nil, hByte, hLast]
        omega
    · split
      · have hByte : (UInt8.ofNat (n / 0x1000 + 0xE0)).toNat = n / 0x1000 + 0xE0 :=
          toNat_byte (by omega)
        refine .longer (first_three (by omega) (by omega)) ?_ (congrArg Char.ofNat ?_)
        · simp only [Continues, UInt8.le_iff_toNat_le, apply_ite UInt8.toNat, UInt8.reduceToNat,
            hByte, hNext, hLast, and_true]
          refine ⟨?_, ?_, ?_⟩
          · split <;> omega
          · split <;> omega
          · omega
        · simp only [appendBits_cons, appendBits_nil, hByte, hNext, hLast]
          omega
      · have hByte : (UInt8.ofNat (n / 0x40000 + 0xF0)).toNat = n / 0x40000 + 0xF0 :=
          toNat_byte (by omega)
        refine .longer (first_four (by omega) (by omega)) ?_ (congrArg Char.ofNat ?_)
        · simp only [Continues, UInt8.le_iff_toNat_le, apply_ite UInt8.toNat, UInt8.reduceToNat,
            hByte, hThird, hNext, hLast, and_true]
          refine ⟨?_, ?_, ?_⟩
          · split <;> omega
          · split <;> omega
          · omega
        · simp only [appendBits_cons, appendBits_nil, hByte, hThird, hNext, hLast]
          omega

/-! ## Texts -/

/-- The scan of an encoded text has its characters and no gap. -/
theorem scan_encode (text : Text) : scan (encode text) = text.map some := by
  induction text with
  | nil => rfl
  | cons c rest ih =>
    rw [encode, List.flatMap_cons, List.map_cons, ← ih]
    exact (spells_encoding c).scanFrom_append _

/-- Bytes whose scan has no gap are an encoding. -/
theorem exists_eq_encode {bytes : List UInt8} (h : none ∉ scan bytes) :
    ∃ text, bytes = encode text := by
  generalize hLength : bytes.length = length
  induction length using Nat.strongRecOn generalizing bytes with
  | _ length ih =>
    cases bytes with
    | nil => exact ⟨[], rfl⟩
    | cons b rest =>
      obtain ⟨c, front, after, hEq, hSpells⟩ := exists_spells h
      obtain rfl := hSpells.eq_encoding
      have hFront : 0 < (String.utf8EncodeChar c).length :=
        List.length_pos_of_ne_nil String.utf8EncodeChar_ne_nil
      have hScan : scan (b :: rest) = some c :: scan after := by
        rw [hEq]
        exact hSpells.scanFrom_append after
      rw [hScan] at h
      have hShorter : after.length < length := by
        rw [← hLength, hEq, List.length_append]
        omega
      obtain ⟨text, rfl⟩ := ih _ hShorter (fun hGap => h (List.mem_cons_of_mem _ hGap)) rfl
      exact ⟨c :: text, hEq⟩

theorem mapM_id_eq_some {scanned : List (Option Char)} {text : Text} :
    scanned.mapM id = some text ↔ scanned = text.map some := by
  induction scanned generalizing text with
  | nil => cases text <;> simp
  | cons read scanned ih =>
    cases text <;> cases read <;>
      simp [List.mapM_cons, ih, Option.bind_eq_some_iff, and_comm]

/-- Bytes are read as a text exactly when they are its encoding. -/
theorem decode?_eq_some_iff {bytes : List UInt8} {text : Text} :
    decode? bytes = some text ↔ bytes = encode text := by
  rw [decode?, mapM_id_eq_some]
  constructor
  · intro hScan
    have hNoGap : none ∉ scan bytes := by simp [hScan]
    obtain ⟨other, rfl⟩ := exists_eq_encode hNoGap
    rw [scan_encode] at hScan
    rw [List.map_injective_iff.mpr (Option.some_injective Char) hScan]
  · rintro rfl
    exact scan_encode text

theorem length_encode_cons (c : Char) (text : Text) :
    (encode (c :: text)).length = c.utf8Size + (encode text).length := by
  rw [encode, List.flatMap_cons, List.length_append, String.length_utf8EncodeChar, encode]

/-- A text has no more characters than bytes. -/
theorem length_le_encode (text : Text) : text.length ≤ (encode text).length := by
  induction text with
  | nil => exact Nat.zero_le _
  | cons c text ih =>
    have hPos := Char.utf8Size_pos c
    rw [List.length_cons, length_encode_cons]
    omega

/-- An encoded text comes back where gaps are tolerated. -/
theorem decodeLossy_encode (text : Text) : decodeLossy (encode text) = text := by
  rw [decodeLossy, scan_encode, List.map_map]
  exact List.map_id text

/-! ## Cuts in the bytes of a text -/

theorem encode_append (before after : Text) :
    encode (before ++ after) = encode before ++ encode after :=
  List.flatMap_append

/-- The offsets of the characters of a text that itself stands at an offset. -/
def offsetsFrom : Nat → Text → List Nat
  | _, [] => []
  | offset, c :: rest => offset :: offsetsFrom (offset + c.utf8Size) rest

/-- The character at a place has the offset at which the text before it ends; behind the last
character that is the end of the text. -/
theorem getD_offsetsFrom (offset place : Nat) (text : Text) :
    ((offsetsFrom offset text)[place]?).getD (offset + (encode text).length) =
      offset + (encode (text.take place)).length := by
  induction text generalizing offset place with
  | nil => simp [offsetsFrom]
  | cons c rest ih =>
    cases place with
    | zero => rfl
    | succ place =>
      rw [offsetsFrom, List.getElem?_cons_succ, List.take_succ_cons, length_encode_cons,
        length_encode_cons, ← Nat.add_assoc, ← Nat.add_assoc, ih]

/-- Cut a text at an offset in its bytes, which must lie within them and between characters. -/
def splitAt? (offset : Nat) (text : Text) : Option (Text × Text) :=
  if (encode text).length < offset then none
  else do
    let before ← decode? ((encode text).take offset)
    let after ← decode? ((encode text).drop offset)
    return (before, after)

theorem splitAt?_append (before after : Text) :
    splitAt? (encode before).length (before ++ after) = some (before, after) := by
  have hDecode : ∀ text, decode? (encode text) = some text := fun text =>
    decode?_eq_some_iff.mpr rfl
  rw [splitAt?, encode_append, if_neg (by rw [List.length_append]; omega), List.take_left,
    List.drop_left, hDecode, hDecode]
  rfl

-- The digit takes three bytes.
example : splitAt? 1 "१2".toList = none ∧ splitAt? 3 "१2".toList = some (['१'], ['2']) := by
  decide

end Formulary.Utf8
