import Formulary.Proofs.Delimiter.Settled
import Formulary.Proofs.Markup.Finish

/-!
# The size of fractions

With display fractions, substitution writes every fraction as `\dfrac`, and shrinking takes this
back within scripts. Shrinking reads scripts flatly: it reaches a fraction only if no brace has
closed since a script was opened before it. `fractions` reads the fraction commands of a markup,
with the brace groups around each and whether it is reached.

* `scripted_of_reached`: a fraction that is reached lies in a script;
* `isStyled_finish`: in finished markup exactly the fractions that are reached are written `\frac`,
  if a brace follows every `\frac` of the raw markup.
-/

namespace Formulary.Markup

open Delimiter Formulary.Symbol
open Script (Spot drops isMark isOpenFraction isOpenFraction_cons shrink_eq_shrunk shrunk
  shrunk_cons shrunk_slash shrunk_of_drops)

/-! ## Reading fractions -/

/-- A fraction command of a markup. -/
structure Fraction where
  /-- It is `\dfrac`. -/
  display : Bool
  /-- It lies in the group of a subscript or a superscript, at any depth. -/
  scripted : Bool
  /-- A script has been opened before it and no brace closed since, and one closes behind it. -/
  reached : Bool
  deriving DecidableEq, Repr

/-- Where the reading of fractions stands. -/
structure Place where
  /-- An unescaped backslash stands right before. -/
  escaped : Bool
  /-- The mark of a subscript or a superscript stands right before. -/
  behind : Bool
  /-- The brace groups that are open, the innermost first: whether each is a script. -/
  groups : List Bool
  spot : Spot

/-- The start of a markup. -/
def Place.start : Place where
  escaped := false
  behind := false
  groups := []
  spot := .outside

/-- The place behind one more character. -/
def Place.after (place : Place) (c : Char) : Place where
  escaped := c = '\\' && !place.escaped
  behind := isMark c
  groups :=
    if place.escaped then place.groups
    else if c = '\x7b' then place.behind :: place.groups
    else if c = '\x7d' then place.groups.tail
    else place.groups
  spot := place.spot.after c

/-- A script has been opened and no brace closed since, and one closes in the text. -/
def isReached (spot : Spot) (text : Text) : Bool := spot = .inside && '\x7d' ∈ text

theorem isReached_congr {spot : Spot} {text other : Text} (h : '\x7d' ∈ text ↔ '\x7d' ∈ other) :
    isReached spot text = isReached spot other := by
  rw [isReached, isReached, decide_eq_decide.mpr h]

/-- A control word for a fraction: whether it is the one in display size. -/
def fractionSize? (word : Text) : Option Bool :=
  if word = "frac".toList then some false
  else if word = "dfrac".toList then some true
  else none

/-- The fraction command that a character begins, given the text behind it. -/
def Place.fraction? (place : Place) (c : Char) (rest : Text) : Option Fraction :=
  if c = '\\' && !place.escaped then
    (fractionSize? (rest.takeWhile Char.isAlpha)).map fun display =>
      { display, scripted := place.groups.any id, reached := isReached place.spot rest }
  else none

/-- The fraction commands of a text that starts at a place. -/
def fractionsFrom : Place → Text → List Fraction
  | _, [] => []
  | place, c :: rest => (place.fraction? c rest).toList ++ fractionsFrom (place.after c) rest

/-- The fraction commands of a markup, in order. -/
def fractions (text : Text) : List Fraction := fractionsFrom .start text

/-! ## Reached fractions -/

/-- The flat reading of scripts agrees with the groups that are open. -/
structure Place.IsSound (place : Place) : Prop where
  behind : place.spot = .behind → place.behind = true
  escaped : place.behind = true → place.escaped = false
  inside : place.spot = .inside → true ∈ place.groups

theorem isMark_of_after {spot : Spot} {c : Char} (h : spot.after c = .behind) :
    isMark c = true := by
  cases spot <;> simp only [Spot.after] at h <;> grind

theorem eq_of_after {spot : Spot} {c : Char} (h : spot.after c = .inside) :
    spot = .inside ∧ c ≠ '\x7d' ∨ spot = .behind ∧ c = '\x7b' := by
  cases spot <;> simp only [Spot.after] at h <;> grind

theorem Place.IsSound.after {place : Place} (h : place.IsSound) (c : Char) :
    (place.after c).IsSound where
  behind hSpot := isMark_of_after hSpot
  escaped hMark := by
    have hSlash : c ≠ '\\' := by
      rintro rfl
      change isMark '\\' = true at hMark
      revert hMark
      decide
    simp [Place.after, hSlash]
  inside hSpot := by
    change true ∈ (if place.escaped then place.groups
      else if c = '\x7b' then place.behind :: place.groups
      else if c = '\x7d' then place.groups.tail
      else place.groups)
    rcases eq_of_after hSpot with ⟨hInside, hClose⟩ | ⟨hBehind, hOpen⟩
    · have hMem := h.inside hInside
      rw [if_neg hClose]
      split
      · exact hMem
      · split
        · exact List.mem_cons_of_mem _ hMem
        · exact hMem
    · -- the brace opens a script: the mark before it is no backslash, so it is not escaped
      have hMark := h.behind hBehind
      simp [h.escaped hMark, hOpen, hMark]

/-- A fraction that is reached lies in a script. -/
theorem scripted_of_reached {place : Place} (h : place.IsSound) {text : Text} :
    ∀ fraction ∈ fractionsFrom place text, fraction.reached = true → fraction.scripted = true := by
  induction text generalizing place with
  | nil => exact fun _ hMem => nomatch hMem
  | cons c rest ih =>
    intro fraction hMem hReached
    rcases List.mem_append.mp hMem with hHere | hRest
    · rw [Option.mem_toList, Place.fraction?] at hHere
      split at hHere
      · obtain ⟨display, -, rfl⟩ := Option.map_eq_some_iff.mp hHere
        have hSpot := (Bool.and_eq_true_iff.mp hReached).1
        exact List.any_eq_true.mpr ⟨true, h.inside (of_decide_eq_true hSpot), rfl⟩
      · cases hHere
    · exact ih (h.after c) fraction hRest hReached

theorem Place.isSound_start : Place.start.IsSound where
  behind hSpot := nomatch hSpot
  escaped hBehind := nomatch hBehind
  inside hSpot := nomatch hSpot

/-! ## Styled markup -/

/-- A bare backslash is followed by `frac` where a fraction is reached only, and by `dfrac` where it
is not. `escaped` says that an unescaped backslash stands right before the text. -/
def IsStyled : Bool → Spot → Text → Prop
  | _, _, [] => True
  | escaped, spot, c :: rest =>
    (c = '\\' → escaped = false →
      ("frac".toList.isPrefixOf rest → isReached spot rest = true) ∧
      ("dfrac".toList.isPrefixOf rest → isReached spot rest = false)) ∧
    IsStyled (c = '\\' && !escaped) (spot.after c) rest

/-- In styled markup the fractions that are reached are those that are not in display size. -/
theorem IsStyled.display_eq {place : Place} {text : Text}
    (h : IsStyled place.escaped place.spot text) :
    ∀ fraction ∈ fractionsFrom place text, fraction.display = !fraction.reached := by
  induction text generalizing place with
  | nil => exact fun _ hMem => nomatch hMem
  | cons c rest ih =>
    obtain ⟨hHere, hRest⟩ := h
    intro fraction hMem
    rcases List.mem_append.mp hMem with hFirst | hLater
    · rw [Option.mem_toList, Place.fraction?] at hFirst
      split at hFirst
      next hBare =>
        obtain ⟨hSlash, hEscaped⟩ := Bool.and_eq_true_iff.mp hBare
        obtain ⟨hSmall, hLarge⟩ := hHere (of_decide_eq_true hSlash) (by simpa using hEscaped)
        obtain ⟨display, hSize, rfl⟩ := Option.map_eq_some_iff.mp hFirst
        have hFront : ∀ word, rest.takeWhile Char.isAlpha = word → word.isPrefixOf rest := by
          rintro word rfl
          exact List.isPrefixOf_iff_prefix.mpr (List.takeWhile_prefix _)
        rw [fractionSize?] at hSize
        split at hSize
        next hWord =>
          cases hSize
          simp [hSmall (hFront _ hWord)]
        next =>
          split at hSize
          next hWord =>
            cases hSize
            simp [hLarge (hFront _ hWord)]
          next => cases hSize
      next => cases hFirst
    · exact ih hRest fraction hLater

/-- An unescaped backslash before a text matters only when the text goes on with a backslash. -/
theorem isStyled_of_ne {c : Char} (hSlash : c ≠ '\\') (escaped : Bool) (spot : Spot) (rest : Text) :
    IsStyled escaped spot (c :: rest) ↔ IsStyled false (spot.after c) rest := by
  simp [IsStyled, hSlash]

/-! ## Raw markup -/

/-- Where a bare backslash begins `\frac`, as far as the text goes, a brace follows. -/
def IsBraced : Bool → Text → Prop
  | _, [] => True
  | escaped, c :: rest =>
    (c = '\\' → escaped = false →
      "frac".toList.isPrefixOf rest ∨ rest.isPrefixOf "frac".toList →
        ("frac".toList ++ ['\x7b']).isPrefixOf rest) ∧
    IsBraced (c = '\\' && !escaped) rest

instance decidableIsBraced : (escaped : Bool) → (text : Text) → Decidable (IsBraced escaped text)
  | _, [] => .isTrue trivial
  | escaped, c :: rest =>
    have := decidableIsBraced (c = '\\' && !escaped) rest
    inferInstanceAs (Decidable (_ ∧ _))

theorem isBraced_of_not_mem {text : Text} (h : '\\' ∉ text) (escaped : Bool) :
    IsBraced escaped text := by
  induction text generalizing escaped with
  | nil => trivial
  | cons c rest ih =>
    simp only [List.mem_cons, not_or] at h
    exact ⟨fun hSlash => absurd hSlash.symm h.1, ih h.2 _⟩

/-- Braced texts are put together: none of them ends in the beginning of `\frac`. -/
theorem IsBraced.append {escaped : Bool} {first second : Text} (hFirst : IsBraced escaped first)
    (hEscaped : escaped = true → first ≠ []) (hSecond : IsBraced false second) :
    IsBraced escaped (first ++ second) := by
  induction first generalizing escaped with
  | nil =>
    cases escaped with
    | false => exact hSecond
    | true => exact absurd rfl (hEscaped rfl)
  | cons c first ih =>
    obtain ⟨hHere, hRest⟩ := hFirst
    refine ⟨fun hSlash hBare hFraction => ?_, ih hRest fun hBoth => ?_⟩
    · have hComparable : "frac".toList.isPrefixOf first ∨ first.isPrefixOf "frac".toList := by
        simp only [List.isPrefixOf_iff_prefix] at hFraction ⊢
        rcases hFraction with hLong | hShort
        · exact List.prefix_or_prefix_of_prefix hLong (List.prefix_append first second)
        · exact .inr ((List.prefix_append first second).trans hShort)
      have hBrace := hHere hSlash hBare hComparable
      rw [List.isPrefixOf_iff_prefix] at hBrace ⊢
      exact hBrace.trans (List.prefix_append first second)
    · rintro rfl
      obtain ⟨hSlash, hBare⟩ := Bool.and_eq_true_iff.mp hBoth
      have hBrace := hHere (of_decide_eq_true hSlash) (by simpa using hBare) (.inr rfl)
      cases hBrace

/-! ## The stages -/

/-- No bare backslash is followed by `frac`. -/
def IsLarge : Bool → Text → Prop
  | _, [] => True
  | escaped, c :: rest =>
    (c = '\\' → escaped = false → "frac".toList.isPrefixOf rest = false) ∧
    IsLarge (c = '\\' && !escaped) rest

theorem isLarge_of_ne {c : Char} (hSlash : c ≠ '\\') (escaped : Bool) (rest : Text) :
    IsLarge escaped (c :: rest) ↔ IsLarge false rest := by
  simp [IsLarge, hSlash]

theorem isLarge_append_of_ne {word rest : Text} (hWord : ∀ c ∈ word, c ≠ '\\') (hNe : word ≠ [])
    (escaped : Bool) : IsLarge escaped (word ++ rest) ↔ IsLarge false rest := by
  induction word generalizing escaped with
  | nil => exact absurd rfl hNe
  | cons c word ih =>
    rw [List.cons_append, isLarge_of_ne (hWord c List.mem_cons_self)]
    by_cases hEmpty : word = []
    · rw [hEmpty, List.nil_append]
    · exact ih (fun d hd => hWord d (List.mem_cons_of_mem _ hd)) hEmpty false

/-- No command that a character is spelled with is a fraction. -/
theorem isLarge_spell_append {c : Char} {command : Text} (hCommand : command? c = some command)
    {escaped : Bool} {rest : Text} (h : IsLarge false rest) :
    IsLarge escaped (spell c ++ rest) := by
  obtain ⟨d, name, rfl, hLetter, hName⟩ := exists_of_command? hCommand
  have hWord : ∀ e ∈ d :: name, e ≠ '\\' := fun e he => (hName e he).2
  rw [spell, hCommand, Option.getD_some, List.cons_append]
  refine ⟨fun _ _ => ?_, (isLarge_append_of_ne hWord (List.cons_ne_nil d name) _).mpr h⟩
  simp [List.isPrefixOf, Ne.symm hLetter]

/-- Substitution writes every fraction of braced markup in display size. -/
theorem isLarge_substitute {escaped : Bool} {text : Text} (h : IsBraced escaped text) :
    IsLarge escaped (substitute true text) := by
  induction text generalizing escaped with
  | nil => trivial
  | cons c rest ih =>
    obtain ⟨hHere, hRest⟩ := h
    have hTail := ih hRest
    rw [substitute_cons]
    cases hCommand : command? c with
    | some command =>
      have hSlash : c ≠ '\\' := by
        rintro rfl
        cases hCommand
      have hNone : promotion true c rest = [] := by simp [promotion, hSlash]
      rw [hNone, List.nil_append]
      exact isLarge_spell_append hCommand (by simpa [hSlash] using hTail)
    | none =>
      rw [spell_of_none hCommand, List.singleton_append]
      by_cases hPromote : (true && c = '\\' && completesFraction rest) = true
      · obtain ⟨hBoth, hCompletes⟩ := Bool.and_eq_true_iff.mp hPromote
        obtain rfl : c = '\\' := of_decide_eq_true (Bool.and_eq_true_iff.mp hBoth).2
        obtain ⟨after, rfl, -⟩ := exists_of_completesFraction hCompletes
        rw [promotion, if_pos hPromote, substitute_frac]
        rw [substitute_frac, isLarge_of_ne (by decide)] at hTail
        refine ⟨fun _ _ => rfl, ?_⟩
        rw [List.singleton_append, isLarge_of_ne (by decide), isLarge_of_ne (by decide)]
        exact hTail
      · rw [promotion, if_neg hPromote, List.nil_append]
        refine ⟨fun hSlash hBare => ?_, hTail⟩
        by_contra hFront
        rw [Bool.not_eq_false] at hFront
        have hBrace := hHere hSlash hBare (.inl (isPrefixOf_of_substitute (by decide) hFront))
        obtain ⟨after, rfl⟩ := Text.exists_of_isPrefixOf hBrace
        have hOpen : Unicode.isWord '\x7b' = false := by decide +kernel
        refine hPromote ?_
        simp [hSlash, completesFraction, wordEnds, hOpen]

/-- Where a `d` is dropped, a reached `dfrac` becomes `frac`. -/
theorem exists_of_drops {slash : Bool} {spot : Spot} {text : Text} (h : drops slash spot text) :
    spot = .inside ∧ isReached spot text = true ∧ ∃ after, text = "dfrac".toList ++ after ∧
      shrunk slash spot text = 'f' :: shrunk false .inside ("rac".toList ++ after) := by
  obtain ⟨rfl, hCloses, hGone⟩ := shrunk_of_drops h
  exact ⟨rfl, decide_eq_true hCloses, hGone⟩

/-- What shrinking writes behind a bare backslash, where no `frac` stands yet. -/
theorem sizes_shrunk (spot : Spot) {rest : Text} (hSmall : "frac".toList.isPrefixOf rest = false) :
    ("frac".toList.isPrefixOf (shrunk true (spot.after '\\') rest) →
      isReached spot (shrunk true (spot.after '\\') rest) = true) ∧
    ("dfrac".toList.isPrefixOf (shrunk true (spot.after '\\') rest) →
      isReached spot (shrunk true (spot.after '\\') rest) = false) := by
  have hFrac : '\\' ∉ "frac".toList := by decide
  have hDfrac : '\\' ∉ "dfrac".toList := by decide
  have hSame : isReached spot (shrunk true (spot.after '\\') rest) = isReached spot rest :=
    isReached_congr (mem_shrunk _ _ _)
  have hInside : spot.after '\\' = .inside → spot = .inside := by
    intro hAfter
    rcases eq_of_after hAfter with ⟨rfl, -⟩ | ⟨-, hBrace⟩
    · rfl
    · exact absurd hBrace (by decide)
  rw [hSame]
  by_cases hDrops : drops true (spot.after '\\') rest
  · obtain ⟨hSpot, hReached, after, -, hGone⟩ := exists_of_drops hDrops
    rw [hSpot, ← hInside hSpot] at hReached
    refine ⟨fun _ => hReached, fun hFront => ?_⟩
    rw [hGone] at hFront
    cases hFront
  · have hOpen : spot.after '\\' = .inside → isOpenFraction rest = false := by
      intro hSpot
      rw [drops, hSpot] at hDrops
      exact Bool.eq_false_iff.mpr hDrops
    rw [shrunk_slash hOpen, isPrefixOf_shrunk hFrac, isPrefixOf_shrunk hDfrac, hSmall]
    refine ⟨by rintro ⟨⟩, fun hFront => Bool.eq_false_iff.mpr fun hReached => hDrops ?_⟩
    obtain ⟨hSpot, hCloses⟩ := Bool.and_eq_true_iff.mp hReached
    rw [of_decide_eq_true hSpot, drops, isOpenFraction, hFront, hCloses]
    rfl

/-- Shrinking leaves exactly the fractions in display size that are not reached. -/
theorem isStyled_shrunk {escaped : Bool} {text : Text} (h : IsLarge escaped text) (slash : Bool)
    (spot : Spot) : IsStyled escaped spot (shrunk slash spot text) := by
  induction text generalizing escaped slash spot with
  | nil => trivial
  | cons c rest ih =>
    obtain ⟨hHere, hRest⟩ := h
    by_cases hDrops : drops slash spot (c :: rest)
    · obtain ⟨rfl, -, after, hText, hGone⟩ := exists_of_drops hDrops
      obtain ⟨rfl, rfl⟩ := List.cons.inj hText
      have hTail := ih hRest false .inside
      change IsStyled _ _ (shrunk false .inside ('f' :: ("rac".toList ++ after))) at hTail
      rw [shrunk_cons rfl, isStyled_of_ne (by decide)] at hTail
      rw [hGone, isStyled_of_ne (by decide)]
      exact hTail
    · rw [shrunk_cons (Bool.eq_false_iff.mpr hDrops)]
      refine ⟨?_, ih hRest _ _⟩
      rintro rfl hBare
      exact sizes_shrunk spot (hHere rfl hBare)

theorem isStyled_cons_inert {c : Char} (hc : isInert c) {escaped : Bool} {spot : Spot}
    {rest : Text} : IsStyled escaped spot (c :: rest) ↔ IsStyled false (calm spot) rest := by
  simp only [isInert, Bool.and_eq_true, decide_eq_true_eq] at hc
  have hSlash : c ≠ '\\' := fun h => hc.2 (by simp [h])
  rw [isStyled_of_ne hSlash, after_of_not_mem (fun h => hc.2 (by simp_all))]

theorem isStyled_append_inert {word : Text} (hWord : ∀ c ∈ word, isInert c) (hNe : word ≠ [])
    {escaped : Bool} {spot : Spot} {rest : Text} :
    IsStyled escaped spot (word ++ rest) ↔ IsStyled false (calm spot) rest := by
  induction word generalizing escaped spot with
  | nil => exact absurd rfl hNe
  | cons c word ih =>
    rw [List.cons_append, isStyled_cons_inert (hWord c List.mem_cons_self)]
    by_cases hEmpty : word = []
    · rw [hEmpty, List.nil_append]
    · rw [ih (fun d hd => hWord d (List.mem_cons_of_mem _ hd)) hEmpty, calm_calm]

/-- A sizing command before a delimiter does not bear on the fractions. -/
theorem isStyled_command (side : Side) {c : Char} (hc : isDelimiter c) {escaped : Bool}
    {spot : Spot} {rest : Text} :
    IsStyled escaped spot (side.command ++ c :: rest) ↔ IsStyled escaped spot (c :: rest) := by
  have hInert := isInert_of_isDelimiter hc
  have hName : ∀ d ∈ side.name, isInert d := by
    refine List.all_iff_forall_prop.mp ?_
    cases side <;> decide
  have hNe : side.name ≠ [] := by cases side <;> decide
  have hFrac : "frac".toList.isPrefixOf (side.name ++ c :: rest) = false := by cases side <;> rfl
  have hDfrac : "dfrac".toList.isPrefixOf (side.name ++ c :: rest) = false := by
    cases side <;> rfl
  have hSpot : spot.after '\\' = calm spot := after_of_not_mem (by decide) spot
  rw [isStyled_cons_inert hInert, side.command_eq, List.cons_append, IsStyled, hFrac, hDfrac, hSpot,
    isStyled_append_inert hName hNe, isStyled_cons_inert hInert, calm_calm, calm_calm]
  simp

theorem isStyled_write {fitted : List Fitted} (hProper : ∀ one ∈ fitted, one.IsProper)
    {escaped : Bool} {spot : Spot}
    (h : IsStyled escaped spot (bareText fitted)) :
    IsStyled escaped spot (write fitted) := by
  have hFrac : ∀ c ∈ "frac".toList, isDelimiter c = false ∧ c ≠ '\\' :=
    List.all_iff_forall_prop.mp (by decide)
  have hDfrac : ∀ c ∈ "dfrac".toList, isDelimiter c = false ∧ c ≠ '\\' :=
    List.all_iff_forall_prop.mp (by decide)
  induction fitted generalizing escaped spot with
  | nil => trivial
  | cons one rest ih =>
    have hRest : ∀ other ∈ rest, other.IsProper :=
      fun other hOther => hProper other (List.mem_cons_of_mem _ hOther)
    have hHead : IsStyled escaped spot (one.mark.char :: write rest) := by
      obtain ⟨hHere, hTail⟩ := h
      refine ⟨?_, ih hRest hTail⟩
      rw [isPrefixOf_write hFrac hRest, isPrefixOf_write hDfrac hRest,
        isReached_congr (mem_write_iff brace_not_mem_command rest)]
      exact hHere
    rw [write_cons]
    cases hSide : one.side with
    | none =>
      rw [Fitted.command, hSide]
      exact hHead
    | some side =>
      rw [Fitted.command, hSide, Option.elim_some,
        isStyled_command side (hProper one List.mem_cons_self side hSide).1]
      exact hHead

theorem isStyled_size (pipes : PipeSizing) {text : Text} (h : IsStyled false .outside text) :
    IsStyled false .outside (size pipes text) := by
  rw [← write_fitText]
  apply isStyled_write isProper_of_mem_fitChunks
  exact (bareText_fitText pipes text).symm ▸ h

/-- The stages write `\frac` exactly where a fraction is reached. -/
theorem isStyled_finish {settings : Settings} (hDisplay : settings.displayFractions = true)
    {raw : Text} (h : IsBraced false raw) : IsStyled false .outside (finish settings raw) := by
  rw [finish_eq, hDisplay, shrink_eq_shrunk]
  exact isStyled_size _ (isStyled_shrunk (isLarge_substitute h) false .outside)

/-- A backslash and no brace at the end bear on no fraction before them. -/
theorem IsStyled.append {tail : Text} (hTail : ∀ escaped spot, IsStyled escaped spot ('\\' :: tail))
    (hBrace : '\x7d' ∉ tail) {escaped : Bool} {spot : Spot} {text : Text}
    (h : IsStyled escaped spot text) : IsStyled escaped spot (text ++ '\\' :: tail) := by
  induction text generalizing escaped spot with
  | nil => exact hTail escaped spot
  | cons c rest ih =>
    obtain ⟨hHere, hRest⟩ := h
    have hMem : '\x7d' ∈ rest ++ '\\' :: tail ↔ '\x7d' ∈ rest := by simp [hBrace]
    have hFrac : '\\' ∉ "frac".toList := by decide
    have hDfrac : '\\' ∉ "dfrac".toList := by decide
    rw [← isReached_congr hMem, ← Text.isPrefixOf_append_cons hFrac rest tail,
      ← Text.isPrefixOf_append_cons hDfrac rest tail] at hHere
    exact ⟨hHere, ih hRest⟩

/-- The delimiters of a style bear on no fraction. -/
theorem isStyled_wrap (style : MathStyle) {text : Text} (h : IsStyled false .outside text) :
    IsStyled false .outside (wrap style text) := by
  have hTail : ∀ c ∈ [')', ']'], ∀ escaped spot, IsStyled escaped spot ['\\', c] := by
    intro c hc escaped spot
    rcases List.mem_pair.mp hc with rfl | rfl <;>
      exact ⟨fun _ _ => ⟨(nomatch ·), (nomatch ·)⟩, fun hSlash => absurd hSlash (by decide),
        trivial⟩
  have hFront : ∀ c ∈ ['(', '['], ∀ rest, IsStyled false .outside rest →
      IsStyled false .outside ('\\' :: c :: rest) := by
    intro c hc rest hRest
    rcases List.mem_pair.mp hc with rfl | rfl <;>
      exact ⟨fun _ _ => ⟨(nomatch ·), (nomatch ·)⟩, (isStyled_cons_inert (by decide)).mpr hRest⟩
  cases style with
  | inline =>
    exact hFront '(' (by decide) _ (h.append (hTail ')' (by decide)) (by decide))
  | display =>
    exact hFront '[' (by decide) _ (h.append (hTail ']' (by decide)) (by decide))

end Formulary.Markup
