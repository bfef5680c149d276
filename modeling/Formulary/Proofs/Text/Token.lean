import Formulary.Proofs.Text.Template
import Mathlib.Data.Bool.AllAny
import Mathlib.Data.List.TakeWhile

/-!
# The tokens of a template

Read as tokens, a template is a list of placeholders, each with all the digits behind its letters,
and of the characters between them. The loop of `fill` does not read tokens: it looks for the
letters and the numeral of one position, and leaves what digits stand behind them. `fillTokens` is
what it does to the tokens, one position after the other.

* `reads_tokens` says what the tokens of a text are;
* `put_write` is one step of the loop on tokens, in a text that already holds some values;
* `fill_eq_write` is the whole loop.
-/

namespace Formulary.Placeholder

open Text

/-- A token of a template. -/
inductive Token where
  /-- A character that begins no placeholder. -/
  | char (c : Char)
  /-- The letters of a placeholder with all digits behind them. -/
  | placeholder (digits : Text)
  /-- The value of a position, and the digits that its name has left. -/
  | value (position : Nat) (left : Text)
  deriving DecidableEq, Repr

namespace Token

/-- What a token is written as, when values have been chosen for the positions. -/
def text (value : Nat → Text) : Token → Text
  | .char c => [c]
  | .placeholder digits => "ARG".toList ++ digits
  | .value position left => value position ++ left

/-- The token of the template that a token has come from. -/
def origin : Token → Token
  | .value position left => .placeholder (ofNat position ++ left)
  | token => token

end Token

/-- What tokens are written as. -/
def write (value : Nat → Text) (tokens : List Token) : Text := tokens.flatMap (Token.text value)

@[simp] theorem write_nil (value : Nat → Text) : write value [] = [] := rfl

@[simp] theorem write_cons (value : Nat → Text) (token : Token) (tokens : List Token) :
    write value (token :: tokens) = token.text value ++ write value tokens := rfl

theorem write_append (value : Nat → Text) (first second : List Token) :
    write value (first ++ second) = write value first ++ write value second :=
  List.flatMap_append

/-! ## Reading tokens -/

/-- The digits of the placeholder at the front of a text. -/
def placeholder? : Text → Option Text
  | 'A' :: 'R' :: 'G' :: rest =>
    match rest.takeWhile Char.isDigit with
    | [] => none
    | digits => some digits
  | _ => none

/-- The tokens of a text. The first argument counts the characters of a placeholder that are still
to be passed over. -/
def tokensFrom : Nat → Text → List Token
  | _, [] => []
  | skip + 1, _ :: rest => tokensFrom skip rest
  | 0, c :: rest =>
    match placeholder? (c :: rest) with
    | some digits => .placeholder digits :: tokensFrom (2 + digits.length) rest
    | none => .char c :: tokensFrom 0 rest

/-- The tokens of a template. -/
def tokens (template : Text) : List Token := tokensFrom 0 template

/-- A text is read into placeholders, each with all its digits, and the characters between. -/
inductive Reads : Text → List Token → Prop
  | nil : Reads [] []
  | char {c : Char} {rest : Text} {tokens : List Token} (hNone : placeholder? (c :: rest) = none)
      (hRest : Reads rest tokens) : Reads (c :: rest) (.char c :: tokens)
  | placeholder {digits rest : Text} {tokens : List Token} (hNe : digits ≠ [])
      (hDigits : ∀ c ∈ digits, c.isDigit) (hEnd : rest.takeWhile Char.isDigit = [])
      (hRest : Reads rest tokens) :
      Reads ("ARG".toList ++ (digits ++ rest)) (.placeholder digits :: tokens)

theorem placeholder?_eq_some {text digits : Text} (h : placeholder? text = some digits) :
    digits ≠ [] ∧ (∀ c ∈ digits, c.isDigit) ∧ ∃ rest, rest.takeWhile Char.isDigit = [] ∧
      text = "ARG".toList ++ (digits ++ rest) := by
  unfold placeholder? at h
  split at h
  next rest =>
    split at h
    · cases h
    next hNe =>
      cases h
      refine ⟨hNe, fun c => List.mem_takeWhile_imp, rest.dropWhile Char.isDigit, ?_, ?_⟩
      · rw [List.takeWhile_eq_nil_iff]
        exact List.dropWhile_get_zero_not Char.isDigit rest
      · rw [List.takeWhile_append_dropWhile]
        rfl
  next => cases h

theorem tokensFrom_append (before rest : Text) :
    tokensFrom before.length (before ++ rest) = tokensFrom 0 rest := by
  induction before with
  | nil => rfl
  | cons c before ih => exact ih

theorem reads_tokens (template : Text) : Reads template (tokens template) := by
  unfold tokens
  induction hLength : template.length using Nat.strongRecOn generalizing template with
  | ind length ih =>
    match template with
    | [] => exact .nil
    | c :: rest =>
      cases hFront : placeholder? (c :: rest) with
      | none =>
        rw [tokensFrom, hFront]
        exact .char hFront (ih rest.length (by simp [← hLength]) rest rfl)
      | some digits =>
        obtain ⟨hNe, hDigits, after, hEnd, hText⟩ := placeholder?_eq_some hFront
        have hShorter : after.length < length := by
          rw [← hLength, hText, List.length_append, List.length_append]
          change after.length < 3 + (digits.length + after.length)
          omega
        obtain ⟨rfl, rfl⟩ := List.cons.inj hText
        have hSkip := tokensFrom_append ('R' :: 'G' :: digits) after
        have hCount : ('R' :: 'G' :: digits).length = 2 + digits.length := Nat.add_comm _ 2
        rw [hCount] at hSkip
        rw [tokensFrom, hFront]
        refine .placeholder hNe hDigits hEnd ?_
        change Reads after (tokensFrom (2 + digits.length) ('R' :: 'G' :: digits ++ after))
        rw [hSkip]
        exact ih after.length hShorter after rfl

/-- A name begins a placeholder. -/
theorem placeholder?_of_name (position : Nat) {text : Text}
    (h : (name position).isPrefixOf text) : placeholder? text ≠ none := by
  obtain ⟨rest, rfl⟩ := exists_of_isPrefixOf h
  have hDigits : ∀ c ∈ ofNat position, c.isDigit := fun _ => isDigit_of_mem_ofNat
  change (match (ofNat position ++ rest).takeWhile Char.isDigit with
    | [] => none
    | digits => some digits) ≠ none
  rw [List.takeWhile_append_of_pos hDigits]
  split
  next hNil => exact absurd (List.append_eq_nil_iff.mp hNil).1 Nat.toDigits_ne_nil
  next => exact Option.some_ne_none _

namespace Reads

variable {template : Text} {tokens : List Token}

/-- The tokens of a text are written as the text. -/
theorem write_eq (h : Reads template tokens) (value : Nat → Text) :
    write value tokens = template := by
  induction h with
  | nil => rfl
  | char _ _ ih => rw [write_cons, ih]; rfl
  | placeholder _ _ _ _ ih => rw [write_cons, ih, Token.text, List.append_assoc]

theorem digits_of_mem (h : Reads template tokens) {digits : Text}
    (hMem : .placeholder digits ∈ tokens) : digits ≠ [] ∧ ∀ c ∈ digits, c.isDigit := by
  induction h with
  | nil => cases hMem
  | char _ _ ih =>
    rcases List.mem_cons.mp hMem with hHead | hTail
    · cases hHead
    · exact ih hTail
  | placeholder hNe hDigits _ _ ih =>
    rcases List.mem_cons.mp hMem with hHead | hTail
    · cases hHead
      exact ⟨hNe, hDigits⟩
    · exact ih hTail

theorem value_not_mem (h : Reads template tokens) (position : Nat) (left : Text) :
    .value position left ∉ tokens := by
  induction h with
  | nil => exact List.not_mem_nil
  | char _ _ ih => simpa using ih
  | placeholder _ _ _ _ ih => simpa using ih

end Reads

/-- Tokens without values have come from themselves. -/
theorem map_origin_of_none {tokens : List Token}
    (hNone : ∀ position left, .value position left ∉ tokens) :
    tokens.map Token.origin = tokens := by
  refine (List.map_congr_left fun token hMem => ?_).trans (List.map_id tokens)
  cases token with
  | char c => rfl
  | placeholder digits => rfl
  | value position left => exact absurd hMem (hNone position left)

/-! ## One step of the loop -/

/-- Put the value of a position behind the letters of the placeholders whose digits begin with its
numeral: of all of them, or of the first one. -/
def putTokens (mode : Substitution) (position : Nat) : List Token → List Token
  | [] => []
  | .placeholder digits :: rest =>
    if (ofNat position).isPrefixOf digits then
      .value position (digits.drop (ofNat position).length) ::
        (if mode = .first then rest else putTokens mode position rest)
    else .placeholder digits :: putTokens mode position rest
  | token :: rest => token :: putTokens mode position rest

/-- Put the values of the positions up to a count, one after the other. -/
def fillTokens (mode : Substitution) : Nat → List Token → List Token
  | 0, tokens => tokens
  | count + 1, tokens => putTokens mode (count + 1) (fillTokens mode count tokens)

theorem isPrefixOf_ofNat_iff {position : Nat} {digits : Text} :
    (ofNat position).isPrefixOf digits ↔
      ofNat position ++ digits.drop (ofNat position).length = digits := by
  rw [List.isPrefixOf_iff_prefix, List.prefix_iff_eq_append]

theorem map_origin_putTokens (mode : Substitution) (position : Nat) (tokens : List Token) :
    (putTokens mode position tokens).map Token.origin = tokens.map Token.origin := by
  fun_induction putTokens mode position tokens with
  | case1 => rfl
  | case2 digits rest hFront ih =>
    have hOrigin : Token.origin (.value position (digits.drop (ofNat position).length)) =
        .placeholder digits := congrArg Token.placeholder (isPrefixOf_ofNat_iff.mp hFront)
    rw [List.map_cons, List.map_cons, hOrigin]
    split
    · rfl
    · rw [ih]
      rfl
  | case3 digits rest hFront ih => rw [List.map_cons, List.map_cons, ih]
  | case4 token rest hToken ih => rw [List.map_cons, List.map_cons, ih]

theorem map_origin_fillTokens (mode : Substitution) (count : Nat) (tokens : List Token) :
    (fillTokens mode count tokens).map Token.origin = tokens.map Token.origin := by
  induction count with
  | zero => rfl
  | succ count ih => rw [fillTokens, map_origin_putTokens, ih]

/-- The values among the tokens behind a step stood there before it or are those of the step. -/
theorem mem_of_mem_putTokens {mode : Substitution} {position other : Nat} {left : Text}
    {tokens : List Token} (h : .value other left ∈ putTokens mode position tokens) :
    .value other left ∈ tokens ∨ other = position := by
  fun_induction putTokens mode position tokens with
  | case1 => cases h
  | case2 digits rest hFront ih =>
    rcases List.mem_cons.mp h with hHead | hTail
    · cases hHead
      exact .inr rfl
    · split at hTail
      · exact .inl (List.mem_cons_of_mem _ hTail)
      · exact (ih hTail).imp_left (List.mem_cons_of_mem _)
  | case3 digits rest hFront ih =>
    rcases List.mem_cons.mp h with hHead | hTail
    · cases hHead
    · exact (ih hTail).imp_left (List.mem_cons_of_mem _)
  | case4 token rest hToken ih =>
    rcases List.mem_cons.mp h with hHead | hTail
    · exact .inl (hHead ▸ List.mem_cons_self)
    · exact (ih hTail).imp_left (List.mem_cons_of_mem _)

theorem bounds_of_mem_fillTokens {mode : Substitution} {count position : Nat} {left : Text}
    {tokens : List Token} (hNone : ∀ position left, .value position left ∉ tokens)
    (h : .value position left ∈ fillTokens mode count tokens) :
    1 ≤ position ∧ position ≤ count := by
  induction count with
  | zero => exact absurd h (hNone position left)
  | succ count ih =>
    rcases mem_of_mem_putTokens h with hBefore | rfl
    · exact ⟨(ih hBefore).1, (ih hBefore).2.trans (Nat.le_succ count)⟩
    · exact ⟨Nat.le_add_left 1 count, Nat.le_refl _⟩

/-- No word arises at the seam before a value. -/
theorem isPrefixOf_origin {value : Nat → Text} {tokens : List Token}
    (hSpans : ∀ position left, .value position left ∈ tokens → IsSpan (value position))
    {word : Text} (hWord : '\\' ∉ word) (hFront : word.isPrefixOf (write value tokens)) :
    word.isPrefixOf (write value (tokens.map Token.origin)) := by
  induction tokens generalizing word with
  | nil => exact hFront
  | cons token tokens ih =>
    have hRest := fun (word : Text) => @ih
      (fun position left hMem => hSpans position left (List.mem_cons_of_mem _ hMem)) word
    rw [write_cons] at hFront
    rw [List.map_cons, write_cons]
    cases token with
    | char c => exact isPrefixOf_of_append hRest hWord hFront
    | placeholder digits => exact isPrefixOf_of_append hRest hWord hFront
    | value position left =>
      obtain ⟨rest, hRest⟩ := (hSpans position left List.mem_cons_self).isWrapped.exists_cons
      rw [Token.text, hRest] at hFront
      rw [eq_nil_of_isPrefixOf_cons hWord hFront]
      rfl

/-- Characters that begin no name are passed over. -/
theorem put_append_of_ne {before : Text} (h : ∀ c ∈ before, c ≠ 'A') (mode : Substitution)
    (position : Nat) (value rest : Text) :
    put mode position value (before ++ rest) = before ++ put mode position value rest := by
  induction before with
  | nil => rfl
  | cons c before ih =>
    have hFront : (name position).isPrefixOf (c :: (before ++ rest)) = false := by
      have hFirst : ('A' == c) = false := beq_eq_false_iff_ne.mpr (h c List.mem_cons_self).symm
      change ('A' == c && _) = false
      rw [hFirst, Bool.false_and]
    rw [List.cons_append, put_cons hFront, ih fun d hMem => h d (List.mem_cons_of_mem _ hMem)]
    rfl

/-- Digits in front of a digit run that ends here are in front of the run alone. -/
theorem isPrefixOf_digits {word digits rest : Text} (hWord : ∀ c ∈ word, c.isDigit)
    (hDigits : ∀ c ∈ digits, c.isDigit) (hEnd : rest.takeWhile Char.isDigit = [])
    (hFront : word.isPrefixOf (digits ++ rest)) : word.isPrefixOf digits := by
  obtain ⟨more, hMore⟩ := exists_of_isPrefixOf hFront
  have hRun := congrArg (List.takeWhile Char.isDigit) hMore
  rw [List.takeWhile_append_of_pos hDigits, List.takeWhile_append_of_pos hWord, hEnd,
    List.append_nil] at hRun
  rw [hRun]
  exact isPrefixOf_append_self word _

theorem ne_of_isDigit {c : Char} (h : c.isDigit) : c ≠ 'A' := by
  rintro rfl
  revert h
  decide

section Fronts

variable {value : Nat → Text} {rest : Text} {tokens : List Token}

/-- No name begins at a character that begins no placeholder. -/
theorem isPrefixOf_char {c : Char} (hNone : placeholder? (c :: rest) = none)
    (hRest : Reads rest (tokens.map Token.origin))
    (hSpans : ∀ position left, .value position left ∈ tokens → IsSpan (value position))
    (position : Nat) : (name position).isPrefixOf (c :: write value tokens) = false := by
  by_contra hSome
  rw [Bool.not_eq_false] at hSome
  have hSource : (name position).isPrefixOf ([c] ++ write value (tokens.map Token.origin)) :=
    isPrefixOf_of_append (fun _ => isPrefixOf_origin hSpans) (slash_not_mem_name position) hSome
  rw [hRest.write_eq] at hSource
  exact placeholder?_of_name position hSource hNone

/-- A name begins at a placeholder only when its numeral is at the front of the digits. -/
theorem isPrefixOf_placeholder {digits : Text} (hDigits : ∀ c ∈ digits, c.isDigit)
    (hEnd : rest.takeWhile Char.isDigit = []) (hRest : Reads rest (tokens.map Token.origin))
    (hSpans : ∀ position left, .value position left ∈ tokens → IsSpan (value position))
    {position : Nat} (hMiss : ¬ (ofNat position).isPrefixOf digits) :
    (name position).isPrefixOf ("ARG".toList ++ digits ++ write value tokens) = false := by
  have hSlash : '\\' ∉ ofNat position := fun hMem =>
    slash_not_mem_name position (List.mem_append_right _ hMem)
  by_contra hSome
  rw [Bool.not_eq_false] at hSome
  refine hMiss (isPrefixOf_digits (fun _ => isDigit_of_mem_ofNat) hDigits hEnd ?_)
  rw [← hRest.write_eq value]
  exact isPrefixOf_of_append (fun _ => isPrefixOf_origin hSpans) hSlash hSome

end Fronts

/-- At a placeholder that begins with the numeral of the position, its value is put. -/
theorem put_digits {position : Nat} {digits : Text} (hDigits : ∀ c ∈ digits, c.isDigit)
    (hHit : (ofNat position).isPrefixOf digits) (mode : Substitution) (value rest : Text) :
    put mode position value ("ARG".toList ++ digits ++ rest) =
      value ++ (digits.drop (ofNat position).length ++
        if mode = .first then rest else put mode position value rest) := by
  have hName : "ARG".toList ++ digits = name position ++ digits.drop (ofNat position).length := by
    rw [name, List.append_assoc, isPrefixOf_ofNat_iff.mp hHit]
  have hLeft : ∀ c ∈ digits.drop (ofNat position).length, c ≠ 'A' := fun c hMem =>
    ne_of_isDigit (hDigits c (List.mem_of_mem_drop hMem))
  rw [hName, List.append_assoc, put_name]
  cases mode with
  | first => rfl
  | all => rw [if_neg (by decide), if_neg (by decide), put_append_of_ne hLeft]

/-- A placeholder at which the name does not begin is passed over. -/
theorem put_pass {position : Nat} {digits rest : Text} (hDigits : ∀ c ∈ digits, c.isDigit)
    (hFront : (name position).isPrefixOf ("ARG".toList ++ digits ++ rest) = false)
    (mode : Substitution) (value : Text) :
    put mode position value ("ARG".toList ++ digits ++ rest) =
      "ARG".toList ++ digits ++ put mode position value rest := by
  have hOther : ∀ c ∈ "RG".toList ++ digits, c ≠ 'A' := by
    have hLetters : ∀ c ∈ "RG".toList, c ≠ 'A' := List.all_iff_forall_prop.mp (by decide)
    intro c hMem
    rcases List.mem_append.mp hMem with hLetter | hDigit
    · exact hLetters c hLetter
    · exact ne_of_isDigit (hDigits c hDigit)
  exact (put_cons hFront).trans
    (congrArg ('A' :: ·) (put_append_of_ne hOther mode position value rest))

/-- One step of the loop, in a text that holds values already. -/
theorem put_write {mode : Substitution} {value : Nat → Text} (position : Nat) {template : Text}
    {tokens : List Token} (h : Reads template (tokens.map Token.origin))
    (hSpans : ∀ position left, .value position left ∈ tokens → IsSpan (value position)) :
    put mode position (value position) (write value tokens) =
      write value (putTokens mode position tokens) := by
  induction tokens generalizing template with
  | nil => cases mode <;> rfl
  | cons token tokens ih =>
    have hRestSpans : ∀ position left, .value position left ∈ tokens → IsSpan (value position) :=
      fun position left hMem => hSpans position left (List.mem_cons_of_mem _ hMem)
    cases token with
    | char c =>
      cases h with
      | char hNone hRest =>
        rw [write_cons, putTokens, write_cons, ← ih hRest hRestSpans]
        exact put_cons (isPrefixOf_char hNone hRest hRestSpans position)
        · rintro digits ⟨⟩
    | placeholder digits =>
      cases h with
      | placeholder hNe hDigits hEnd hRest =>
        rw [write_cons, Token.text, putTokens]
        by_cases hHit : (ofNat position).isPrefixOf digits
        · rw [put_digits hDigits hHit, if_pos hHit, write_cons, Token.text, List.append_assoc,
            ih hRest hRestSpans]
          split <;> rfl
        · have hFront := isPrefixOf_placeholder hDigits hEnd hRest hRestSpans hHit
          rw [put_pass hDigits hFront, if_neg hHit, write_cons, Token.text, ih hRest hRestSpans]
    | value other left =>
      cases h with
      | placeholder hNe hDigits hEnd hRest =>
        have hLeft : ∀ c ∈ left, c ≠ 'A' := fun c hMem =>
          ne_of_isDigit (hDigits c (List.mem_append_right _ hMem))
        rw [write_cons, Token.text, putTokens, write_cons, Token.text, List.append_assoc,
          put_span (hSpans other left List.mem_cons_self), put_append_of_ne hLeft,
          ih hRest hRestSpans, List.append_assoc]
        · rintro digits ⟨⟩

/-- The loop does to a template what `fillTokens` does to its tokens. -/
theorem fill_eq_write (mode : Substitution) {values : List Text}
    (hValues : ∀ value ∈ values, IsSpan value) (template : Text) :
    fill mode values template =
      write (valueAt values) (fillTokens mode values.length (tokens template)) := by
  have hReads := reads_tokens template
  refine fill_induction (motive := fun last text =>
    text = write (valueAt values) (fillTokens mode last (tokens template)))
    (hReads.write_eq _).symm fun last hLast text hText => ?_
  have hSpans : ∀ position left,
      .value position left ∈ fillTokens mode last (tokens template) →
        IsSpan (valueAt values position) := by
    intro position left hMem
    obtain ⟨hPos, hLe⟩ := bounds_of_mem_fillTokens hReads.value_not_mem hMem
    exact hValues _ (valueAt_mem hPos (by omega))
  have hOrigin : (fillTokens mode last (tokens template)).map Token.origin = tokens template := by
    rw [map_origin_fillTokens, map_origin_of_none hReads.value_not_mem]
  rw [hText, fillTokens]
  exact put_write (last + 1) (hOrigin.symm ▸ hReads) hSpans

end Formulary.Placeholder
