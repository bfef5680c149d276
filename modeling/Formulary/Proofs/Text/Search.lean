import Formulary.Text.Basic

/-!
# Searching texts

Facts about the searches that the rewrites of markup share: a cut at a mark, a word at the front
of a text, also when the text is cut or lengthened, and a word anywhere in a text. A scan whose
step depends on the place alone writes its text place by place.
-/

namespace Formulary.Text

/-! ## Cutting at a mark -/

theorem cutAt_eq_none_iff {mark : Char} {text : Text} : cutAt mark text = none ↔ mark ∉ text := by
  induction text with
  | nil => simp [cutAt]
  | cons c rest ih =>
    by_cases h : c = mark
    · simp [cutAt, h]
    · simp [cutAt, h, ih, Ne.symm h]

/-- What stands before the first mark has none. -/
theorem cutAt_eq_some {mark : Char} {text before after : Text}
    (h : cutAt mark text = some (before, after)) :
    text = before ++ mark :: after ∧ mark ∉ before := by
  induction text generalizing before with
  | nil => cases h
  | cons c rest ih =>
    by_cases hc : c = mark
    · simp only [cutAt, hc, if_true, Option.some.injEq, Prod.mk.injEq] at h
      obtain ⟨rfl, rfl⟩ := h
      exact ⟨by simp [hc], by simp⟩
    · simp only [cutAt, hc, if_false, Option.map_eq_some_iff, Prod.mk.injEq] at h
      obtain ⟨⟨inner, rest'⟩, hCut, rfl, rfl⟩ := h
      obtain ⟨rfl, hInner⟩ := ih hCut
      exact ⟨rfl, by simp [hInner, Ne.symm hc]⟩

/-! ## Words at the front -/

theorem isPrefixOf_append_self (word rest : Text) : word.isPrefixOf (word ++ rest) = true :=
  List.isPrefixOf_iff_prefix.mpr (List.prefix_append word rest)

theorem exists_of_isPrefixOf {word text : Text} (h : word.isPrefixOf text) :
    ∃ rest, text = word ++ rest := by
  obtain ⟨rest, hRest⟩ := List.isPrefixOf_iff_prefix.mp h
  exact ⟨rest, hRest.symm⟩

/-- A word without the mark stands at the front of a text exactly when it stands at the front of
what precedes the mark. -/
theorem isPrefixOf_append_cons {word : Text} {mark : Char} (h : mark ∉ word) (before after : Text) :
    word.isPrefixOf (before ++ mark :: after) = word.isPrefixOf before := by
  induction word generalizing before with
  | nil => simp
  | cons c word ih =>
    simp only [List.mem_cons, not_or] at h
    cases before with
    | nil => simp [List.isPrefixOf, Ne.symm h.1]
    | cons d before =>
      simp only [List.cons_append, List.isPrefixOf_cons_cons]
      rw [ih h.2]

/-- A word without the mark at the front of a text ends before the mark. -/
theorem exists_of_append_cons_eq {mark : Char} {word before after rest : Text}
    (hMark : mark ∉ word) (h : before ++ mark :: after = word ++ rest) :
    ∃ mid, before = word ++ mid ∧ rest = mid ++ mark :: after := by
  induction word generalizing before with
  | nil => exact ⟨before, rfl, h.symm⟩
  | cons c word ih =>
    obtain ⟨hNe, hWord⟩ := List.ne_and_not_mem_of_not_mem_cons hMark
    cases before with
    | nil => exact absurd (List.cons.inj h).1 hNe
    | cons d before =>
      obtain ⟨rfl, hRest⟩ := List.cons.inj h
      obtain ⟨mid, rfl, rfl⟩ := ih hWord hRest
      exact ⟨mid, rfl, rfl⟩

/-! ## Words anywhere -/

/-- An occurrence of a word lies before or behind a character that the word does not have. -/
theorem mentions_append_cons {word : Text} {mark : Char} (hNe : word ≠ []) (h : mark ∉ word)
    (before after : Text) :
    mentions word (before ++ mark :: after) = (mentions word before || mentions word after) := by
  have hFront : word.isPrefixOf [] = false := by
    cases word with
    | nil => exact absurd rfl hNe
    | cons => rfl
  have hEmpty : mentions word [] = false := by rw [mentions, List.isEmpty_eq_false_iff.mpr hNe]
  induction before with
  | nil =>
    have hMark := isPrefixOf_append_cons h [] after
    rw [List.nil_append] at hMark
    rw [List.nil_append, hEmpty, mentions, hMark, hFront]
  | cons c before ih =>
    have hMark := isPrefixOf_append_cons h (c :: before) after
    rw [List.cons_append] at hMark
    rw [List.cons_append, mentions, mentions, hMark, ih, Bool.or_assoc]

/-- A text without a word has no longer word that begins with it. -/
theorem mentions_append_eq_false {word text : Text} (more : Text)
    (h : mentions word text = false) : mentions (word ++ more) text = false := by
  induction text with
  | nil =>
    rw [mentions, List.isEmpty_eq_false_iff] at h
    rw [mentions, List.isEmpty_eq_false_iff]
    exact List.append_ne_nil_of_left_ne_nil h more
  | cons c rest ih =>
    obtain ⟨hHere, hLater⟩ := Bool.or_eq_false_iff.mp h
    refine Bool.or_eq_false_iff.mpr ⟨?_, ih hLater⟩
    cases hFront : (word ++ more).isPrefixOf (c :: rest) with
    | false => rfl
    | true =>
      obtain ⟨after, hAfter⟩ := exists_of_isPrefixOf hFront
      rw [hAfter, List.append_assoc, isPrefixOf_append_self] at hHere
      cases hHere

/-! ## Texts written place by place -/

/-- Each character is written in a way that depends on its place. -/
def atPlaces (write : Nat → Char → Text) (text : Text) : Text :=
  text.zipIdx.flatMap fun (c, place) => write place c

/-- A scan may look at what stands before a character and behind it: over one text, both are told
by the place. It may end with a last word. -/
theorem eq_atPlaces_append {scan : Text → Text → Text} {write : Nat → Char → Text}
    {text last : Text} (hNil : scan text [] = last)
    (hCons : ∀ before c rest, text = before ++ c :: rest →
      scan before (c :: rest) = write before.length c ++ scan (before ++ [c]) rest) :
    scan [] text = atPlaces write text ++ last := by
  have hFrom : ∀ before rest, text = before ++ rest → scan before rest =
      ((rest.zipIdx before.length).flatMap fun (c, place) => write place c) ++ last := by
    intro before rest hText
    induction rest generalizing before with
    | nil =>
      rw [List.append_nil] at hText
      rw [← hText]
      exact hNil
    | cons c rest ih =>
      have hRest := ih (before ++ [c]) (by rw [hText, List.append_assoc, List.singleton_append])
      rw [hCons before c rest hText, hRest, List.zipIdx_cons, List.flatMap_cons,
        List.length_append, List.length_singleton, List.append_assoc]
  exact hFrom [] text rfl

theorem eq_atPlaces {scan : Text → Text → Text} {write : Nat → Char → Text} {text : Text}
    (hNil : ∀ before, scan before [] = [])
    (hCons : ∀ before c rest, text = before ++ c :: rest →
      scan before (c :: rest) = write before.length c ++ scan (before ++ [c]) rest) :
    scan [] text = atPlaces write text :=
  (eq_atPlaces_append (hNil text) hCons).trans (List.append_nil _)

end Formulary.Text
