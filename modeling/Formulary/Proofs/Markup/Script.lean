import Formulary.Markup.Script
import Formulary.Proofs.Text.Search

/-!
# Scripts, character by character

`Script.shrink` decides for a whole script at once whether its fractions shrink. Seen from a single
`\dfrac`, that decision needs three things only: a script has been opened since the last closing
brace (`Spot`), a closing brace follows, and an unescaped or escaped backslash stands directly
before `dfrac`. `shrunk` is the scan that drops the `d` under these conditions, and
`shrink_eq_shrunk` is the equality of the two.
-/

namespace Formulary.Script

/-- Where the reading stands with respect to scripts. -/
inductive Spot where
  | outside
  /-- Directly behind the mark of a subscript or a superscript. -/
  | behind
  /-- A script has been opened and no brace closed since. -/
  | inside
  deriving DecidableEq, Repr, Inhabited

/-- The mark of a subscript or a superscript. -/
def isMark (c : Char) : Bool := c = '_' || c = '^'

/-- The spot behind one more character. -/
def Spot.after : Spot → Char → Spot
  | .inside, c => if c = '\x7d' then .outside else .inside
  | .behind, c => if c = '\x7b' then .inside else if isMark c then .behind else .outside
  | .outside, c => if isMark c then .behind else .outside

/-- The text goes on with `dfrac`, and a brace closes in it. -/
def isOpenFraction (text : Text) : Bool := "dfrac".toList.isPrefixOf text && '\x7d' ∈ text

/-- The character that the text goes on with is the `d` of a fraction in a script. `slash` says that
a backslash stands before it. -/
def drops (slash : Bool) (spot : Spot) (text : Text) : Bool :=
  slash && spot = .inside && isOpenFraction text

/-- Write a text without the `d` of the fractions in its scripts. -/
def shrunk : Bool → Spot → Text → Text
  | _, _, [] => []
  | slash, spot, c :: rest =>
    (if drops slash spot (c :: rest) then [] else [c]) ++
      shrunk (c = '\\') (spot.after c) rest

/-! ## Equations of the scan -/

theorem isOpenFraction_cons {c : Char} (h : c ≠ 'd') (rest : Text) :
    isOpenFraction (c :: rest) = false := by
  simp [isOpenFraction, List.isPrefixOf, Ne.symm h]

theorem shrunk_cons {slash : Bool} {spot : Spot} {c : Char} {rest : Text}
    (h : drops slash spot (c :: rest) = false) :
    shrunk slash spot (c :: rest) = c :: shrunk (c = '\\') (spot.after c) rest := by
  rw [shrunk, h]
  rfl

/-- The backslash before a text matters only when the text goes on with a fraction in a script. -/
theorem shrunk_slash {spot : Spot} {text : Text}
    (h : spot = .inside → isOpenFraction text = false) (slash : Bool) :
    shrunk slash spot text = shrunk false spot text := by
  cases text with
  | nil => rfl
  | cons c rest =>
    have hDrops : ∀ slash, drops slash spot (c :: rest) = false := by
      intro slash
      by_cases hSpot : spot = .inside
      · simp [drops, h hSpot]
      · simp [drops, hSpot]
    rw [shrunk_cons (hDrops slash), shrunk_cons (hDrops false)]

theorem shrunk_false_cons (spot : Spot) (c : Char) (rest : Text) :
    shrunk false spot (c :: rest) = c :: shrunk (c = '\\') (spot.after c) rest :=
  shrunk_cons rfl

/-- Where a `d` is dropped, `dfrac` becomes `frac`. -/
theorem shrunk_of_drops {slash : Bool} {spot : Spot} {text : Text} (h : drops slash spot text) :
    spot = .inside ∧ '\x7d' ∈ text ∧ ∃ after, text = "dfrac".toList ++ after ∧
      shrunk slash spot text = 'f' :: shrunk false .inside ("rac".toList ++ after) := by
  obtain ⟨hBoth, hOpen⟩ := Bool.and_eq_true_iff.mp h
  obtain rfl : spot = .inside := of_decide_eq_true (Bool.and_eq_true_iff.mp hBoth).2
  obtain ⟨hWord, hCloses⟩ := Bool.and_eq_true_iff.mp hOpen
  obtain ⟨after, rfl⟩ := Text.exists_of_isPrefixOf hWord
  refine ⟨rfl, of_decide_eq_true hCloses, after, rfl, ?_⟩
  change drops slash .inside ('d' :: ("frac".toList ++ after)) at h
  change shrunk slash .inside ('d' :: ("frac".toList ++ after)) = _
  rw [shrunk, if_pos h]
  exact shrunk_cons rfl

/-- Behind a mark, a character that is no opening brace is read as anywhere else. -/
theorem shrunk_behind {rest : Text} (h : ∀ after, rest ≠ '\x7b' :: after) (slash : Bool) :
    shrunk slash .behind rest = shrunk false .outside rest := by
  have hOutside : Spot.behind = .inside → isOpenFraction rest = false := by
    intro hSpot
    cases hSpot
  rw [shrunk_slash hOutside slash]
  cases rest with
  | nil => rfl
  | cons c rest =>
    have hc : c ≠ '\x7b' := fun hc => h rest (hc ▸ rfl)
    rw [shrunk_false_cons, shrunk_false_cons]
    simp [Spot.after, hc]

/-! ## The decision for a script -/

theorem closes_of_hasFraction {text : Text} (h : hasFraction text) : '\x7d' ∈ text := by
  rw [hasFraction] at h
  split at h
  · rename_i hCut
    simp [(Text.cutAt_eq_some hCut).1]
  · cases h

/-- A script has a fraction when it goes on with one or has one behind its first character. -/
theorem hasFraction_cons {c : Char} (hc : c ≠ '\x7d') (rest : Text) :
    hasFraction (c :: rest) = (isOpenFraction (c :: rest) || hasFraction rest) := by
  simp only [hasFraction, Text.cutAt, hc, if_false]
  cases hCut : Text.cutAt '\x7d' rest with
  | none =>
    have hNone := Text.cutAt_eq_none_iff.mp hCut
    simp [isOpenFraction, hNone, Ne.symm hc]
  | some parts =>
    obtain ⟨body, after⟩ := parts
    obtain ⟨rfl, -⟩ := Text.cutAt_eq_some hCut
    have hWord : '\x7d' ∉ "dfrac".toList := by decide
    have hFront := Text.isPrefixOf_append_cons hWord (c :: body) after
    have hCloses : '\x7d' ∈ c :: (body ++ '\x7d' :: after) := by simp
    rw [List.cons_append] at hFront
    simp only [Option.map_some, Text.mentions, isOpenFraction, hFront, hCloses, decide_true,
      Bool.and_true]

theorem isOpenFraction_of_hasFraction {text : Text} (h : hasFraction text = false) :
    isOpenFraction text = false := by
  cases text with
  | nil => rfl
  | cons c rest =>
    by_cases hc : c = '\x7d'
    · exact isOpenFraction_cons (by rw [hc]; decide) rest
    · rw [hasFraction_cons hc] at h
      exact (Bool.or_eq_false_iff.mp h).1

theorem shrinkFrom_false_cons {c : Char} {rest : Text}
    (h : ∀ after, rest = '\x7b' :: after → isMark c → hasFraction after = false) :
    shrinkFrom false (c :: rest) = c :: shrinkFrom false rest := by
  by_cases hBrace : ∃ after, rest = '\x7b' :: after
  · obtain ⟨after, rfl⟩ := hBrace
    rw [shrinkFrom, if_neg]
    intro hBoth
    obtain ⟨hMark, hHas⟩ := Bool.and_eq_true_iff.mp hBoth
    rw [h after rfl hMark] at hHas
    cases hHas
  · rw [shrinkFrom]
    exact fun after hEq => hBrace ⟨after, hEq⟩

theorem shrinkFrom_script {c : Char} {rest : Text} (hMark : isMark c) (hHas : hasFraction rest) :
    shrinkFrom false (c :: '\x7b' :: rest) = c :: '\x7b' :: shrinkFrom true rest := by
  rw [shrinkFrom]
  exact if_pos (Bool.and_eq_true_iff.mpr ⟨hMark, hHas⟩)

/-- The scan by scripts and the scan by characters write the same from a text on, in each of the
three situations in which `shrinkFrom` runs. -/
structure Agrees (text : Text) : Prop where
  outside : shrinkFrom false text = shrunk false .outside text
  /-- In a script without a fraction, which `shrinkFrom` does not enter. -/
  idle : hasFraction text = false → shrinkFrom false text = shrunk false .inside text
  /-- In a script that is closed. -/
  closed : '\x7d' ∈ text → shrinkFrom true text = shrunk false .inside text

theorem agrees_outside {c : Char} {rest : Text} (hRest : Agrees rest)
    (hAfter : ∀ after, rest = '\x7b' :: after → Agrees after) :
    shrinkFrom false (c :: rest) = shrunk false .outside (c :: rest) := by
  rw [shrunk_false_cons]
  by_cases hMark : isMark c
  · rw [show Spot.outside.after c = .behind from if_pos hMark]
    by_cases hBrace : ∃ after, rest = '\x7b' :: after
    · obtain ⟨after, rfl⟩ := hBrace
      have hScript := hAfter after rfl
      rw [shrunk_cons (by simp [drops])]
      change _ = c :: '\x7b' :: shrunk false .inside after
      by_cases hHas : hasFraction after
      · rw [shrinkFrom_script hMark hHas, hScript.closed (closes_of_hasFraction hHas)]
      · have hNone : hasFraction after = false := Bool.eq_false_iff.mpr hHas
        rw [shrinkFrom_false_cons (by rintro _ ⟨⟩ _; exact hNone),
          shrinkFrom_false_cons (by rintro _ - hBrace; cases hBrace), hScript.idle hNone]
    · have hNot : ∀ after, rest ≠ '\x7b' :: after := fun after hEq => hBrace ⟨after, hEq⟩
      rw [shrinkFrom_false_cons fun after hEq => absurd hEq (hNot after), hRest.outside,
        shrunk_behind hNot]
  · rw [show Spot.outside.after c = .outside from if_neg hMark,
      shrinkFrom_false_cons fun _ _ hc => absurd hc hMark, hRest.outside,
      shrunk_slash (by simp) (decide (c = '\\'))]

theorem agrees_idle {c : Char} {rest : Text} (hRest : Agrees rest)
    (hNone : hasFraction (c :: rest) = false) :
    shrinkFrom false (c :: rest) = shrunk false .inside (c :: rest) := by
  rw [shrunk_false_cons]
  by_cases hClose : c = '\x7d'
  · subst hClose
    rw [shrinkFrom_false_cons (by rintro _ - hBrace; cases hBrace), hRest.outside]
    rfl
  · rw [hasFraction_cons hClose] at hNone
    have hNoneRest := (Bool.or_eq_false_iff.mp hNone).2
    have hAfter : ∀ after, rest = '\x7b' :: after → isMark c → hasFraction after = false := by
      rintro after rfl -
      rw [hasFraction_cons (by decide)] at hNoneRest
      exact (Bool.or_eq_false_iff.mp hNoneRest).2
    rw [shrinkFrom_false_cons hAfter, hRest.idle hNoneRest,
      show Spot.inside.after c = .inside from if_neg hClose,
      shrunk_slash (fun _ => isOpenFraction_of_hasFraction hNoneRest) (decide (c = '\\'))]

theorem agrees_closed {c : Char} {rest : Text} (hRest : Agrees rest)
    (hAfter : ∀ after, rest = "dfrac".toList ++ after → Agrees after)
    (hClosed : '\x7d' ∈ c :: rest) :
    shrinkFrom true (c :: rest) = shrunk false .inside (c :: rest) := by
  by_cases hFraction : c = '\\' ∧ "dfrac".toList.isPrefixOf rest
  · obtain ⟨rfl, hWord⟩ := hFraction
    obtain ⟨after, rfl⟩ := Text.exists_of_isPrefixOf hWord
    have hCloses : '\x7d' ∈ after := by simpa using hClosed
    have hOpen : isOpenFraction ('d' :: 'f' :: 'r' :: 'a' :: 'c' :: after) = true := by
      simp [isOpenFraction, hCloses]
    change shrinkFrom true ('\\' :: 'd' :: 'f' :: 'r' :: 'a' :: 'c' :: after) =
      shrunk false .inside ('\\' :: 'd' :: 'f' :: 'r' :: 'a' :: 'c' :: after)
    rw [shrinkFrom, (hAfter after rfl).closed hCloses, shrunk_false_cons, shrunk]
    simp [drops, hOpen, Spot.after, shrunk_false_cons]
  · have hStep : shrinkFrom true (c :: rest) = c :: shrinkFrom (c ≠ '\x7d') rest := by
      rw [shrinkFrom]
      rintro after rfl rfl
      exact hFraction ⟨rfl, Text.isPrefixOf_append_self "dfrac".toList after⟩
    rw [hStep, shrunk_false_cons]
    by_cases hClose : c = '\x7d'
    · subst hClose
      exact congrArg _ hRest.outside
    · have hRestClosed : '\x7d' ∈ rest := by simpa [Ne.symm hClose] using hClosed
      have hTrue : decide (c ≠ '\x7d') = true := decide_eq_true hClose
      rw [hTrue, hRest.closed hRestClosed, show Spot.inside.after c = .inside from if_neg hClose]
      by_cases hSlash : c = '\\'
      · have hNone : isOpenFraction rest = false := by
          rw [isOpenFraction, Bool.and_eq_false_iff]
          exact Or.inl (Bool.eq_false_iff.mpr fun hWord => hFraction ⟨hSlash, hWord⟩)
        rw [shrunk_slash (fun _ => hNone) (decide (c = '\\'))]
      · rw [decide_eq_false hSlash]

theorem agrees (text : Text) : Agrees text := by
  generalize hLength : text.length = bound
  induction bound using Nat.strongRecOn generalizing text with
  | ind bound ih =>
    cases text with
    | nil => exact ⟨rfl, fun _ => rfl, nofun⟩
    | cons c rest =>
      have hRest : Agrees rest := ih rest.length (by simp at hLength; omega) rest rfl
      refine ⟨agrees_outside hRest ?_, agrees_idle hRest, agrees_closed hRest ?_⟩
      · rintro after rfl
        exact ih after.length (by simp at hLength; omega) after rfl
      · rintro after rfl
        exact ih after.length (by simp at hLength; omega) after rfl

theorem shrink_eq_shrunk (text : Text) : shrink text = shrunk false .outside text :=
  (agrees text).outside

end Formulary.Script
