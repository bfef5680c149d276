import Formulary.Proofs.Delimiter.Bracket

/-!
# The braces of markup

`braces` reads the braces of a text that are not escaped, and a text `IsMatched` when they are
closed in the right order and it ends in a quiet lead. Parentheses, pipes and sizing commands do
not bear on this, so it is passed on through all stages whatever is sized:

* `braces_eq_relabel`: the braces are among the signs of a text, so the first two stages put in
  empty braces at most (`IsMatched.unsized`);
* `braces_size`: sizing puts in no brace and escapes none;
* `IsMatched.wrap`: neither do the delimiters of a style;
* `IsMatched.count_le`, `IsMatched.count_eq`: read from the left, no more braces are closed than
  opened, and in the end as many.
-/

namespace Formulary

open Delimiter

/-- The brace of a mark that is not escaped. -/
def Mark.braces (mark : Mark) : List (Sign Written) :=
  if mark.escaped then [] else braceSigns mark.char

/-- The braces of a text that are not escaped. -/
def braces (text : Text) : List (Sign Written) := (marks text).flatMap Mark.braces

theorem braces_eq_relabel (text : Text) : braces text = relabel looseName (signs text) := by
  rw [signs, signsFrom, relabel, List.filterMap_flatMap]
  exact List.flatMap_congr fun mark _ => (relabel_signs mark).symm

theorem braces_append {first : Text} (h : EndsQuiet first) (second : Text) :
    braces (first ++ second) = braces first ++ braces second := by
  rw [braces_eq_relabel, signs_append h, relabel_append, ← braces_eq_relabel, ← braces_eq_relabel]

theorem braces_of_not_mem {text : Text} (h : '\\' ∉ text) :
    braces text = text.flatMap braceSigns := by
  rw [braces_eq_relabel, signs_of_not_mem h, relabel, List.filterMap_flatMap]
  refine List.flatMap_congr fun c _ => ?_
  split
  · rename_i hPipe
    rw [hPipe]
    rfl
  · exact relabel_charSigns c

/-- A sizing command holds no brace, and a delimiter is none. -/
theorem flatMap_braces_grown {one : Fitted} (hProper : one.IsProper) :
    one.grown.flatMap Mark.braces = one.mark.braces := by
  obtain ⟨mark, side⟩ := one
  cases side with
  | none => exact List.flatMap_singleton _ _
  | some side =>
    obtain ⟨-, hBare⟩ := hProper side rfl
    have hAdded : (Fitted.added ⟨mark, some side⟩).flatMap Mark.braces = [] := by
      rw [List.flatMap_eq_nil_iff]
      intro added hMem
      have hLetters : ∀ c ∈ side.command, braceSigns c = [] :=
        List.all_iff_forall_prop.mp (by cases side <;> decide)
      rw [Mark.braces, hLetters added.char (char_mem_of_mem_marksFrom hMem), ite_self]
    have hKept : Mark.braces ⟨.word side.name, mark.char⟩ = mark.braces := by
      rw [Mark.braces, Mark.braces, hBare]
      rfl
    rw [Fitted.grown, List.flatMap_append, hAdded, List.nil_append, List.flatMap_singleton]
    exact hKept

theorem braces_size (pipes : PipeSizing) (text : Text) :
    braces (size pipes text) = braces text := by
  have hGrown : ∀ one ∈ fitText pipes text, one.grown.flatMap Mark.braces = one.mark.braces :=
    fun one hOne => flatMap_braces_grown (isProper_of_mem_fitChunks one hOne)
  rw [braces, marks_size, List.flatMap_assoc, List.flatMap_congr hGrown, braces,
    ← map_mark_fitText pipes text, List.flatMap_map]

/-! ## Matched braces -/

/-- The braces of a text are closed in the right order, and it ends in a quiet lead. -/
structure IsMatched (text : Text) : Prop where
  quiet : EndsQuiet text
  nested : IsNested (braces text)

instance : DecidablePred IsMatched := fun text =>
  decidable_of_iff (EndsQuiet text ∧ IsNested (braces text))
    ⟨fun ⟨hQuiet, hNested⟩ => ⟨hQuiet, hNested⟩, fun h => ⟨h.quiet, h.nested⟩⟩

namespace IsMatched

variable {first second inner text : Text}

/-- Matched markup may be put into matched markup wherever that may be cut. -/
theorem insert (hFirst : EndsQuiet first) (h : IsMatched (first ++ second))
    (hInner : IsMatched inner) : IsMatched (first ++ inner ++ second) := by
  have hFront : EndsQuiet (first ++ inner) := isQuiet_append hFirst hInner.quiet
  refine ⟨hFirst.insert h.quiet hInner.quiet, ?_⟩
  rw [IsNested, braces_append hFront, braces_append hFirst, List.append_assoc,
    nest_insert hInner.nested, ← braces_append hFirst]
  exact h.nested

theorem of_not_mem (hSlash : '\\' ∉ text) (hOpen : '\x7b' ∉ text) (hClose : '\x7d' ∉ text) :
    IsMatched text := by
  refine ⟨by rw [EndsQuiet, Formulary.through_of_not_mem hSlash]; rfl, ?_⟩
  have hNone : ∀ c ∈ text, braceSigns c = [] := by
    intro c hc
    have hNotOpen : c ≠ '\x7b' := fun hEq => hOpen (hEq ▸ hc)
    have hNotClose : c ≠ '\x7d' := fun hEq => hClose (hEq ▸ hc)
    rw [braceSigns, if_neg hNotOpen, if_neg hNotClose]
  rw [braces_of_not_mem hSlash, List.flatMap_eq_nil_iff.mpr hNone]
  exact .nil

/-- Glyph commands put in empty braces, and no other stage before sizing touches a brace. -/
theorem unsized (h : IsMatched text) (settings : Settings) :
    IsMatched (unsizedMarkup settings text) := by
  obtain ⟨hSigns, hThrough⟩ := padded_unsizedMarkup settings text (Alike.refl .plain)
  refine ⟨hThrough.isQuiet h.quiet, ?_⟩
  have hSame := hSigns.nest_relabel_eq looseName []
  rw [IsNested, braces_eq_relabel]
  exact hSame.trans (braces_eq_relabel text ▸ h.nested)

theorem finish (h : IsMatched text) (settings : Settings) :
    IsMatched (Markup.finish settings text) := by
  have hUnsized := h.unsized settings
  change IsMatched (size settings.pipeSizing (unsizedMarkup settings text))
  refine ⟨?_, ?_⟩
  · rw [EndsQuiet, through_size]
    exact hUnsized.quiet
  · rw [braces_size]
    exact hUnsized.nested

theorem wrap (h : IsMatched text) (style : MathStyle) : IsMatched (Markup.wrap style text) := by
  cases style with
  | inline =>
    have hEmpty : IsMatched ("\\(".toList ++ "\\)".toList) := by decide
    exact .insert (by decide) hEmpty h
  | display =>
    have hEmpty : IsMatched ("\\[".toList ++ "\\]".toList) := by decide
    exact .insert (by decide) hEmpty h

end IsMatched

/-! ## Counting braces -/

/-- How often a character stands in a text without being escaped. -/
def countBare (c : Char) (text : Text) : Nat := (marks text).countP fun mark => mark.isBare c

theorem count_braces (text : Text) :
    (braces text).count (.opening .brace) = countBare '\x7b' text ∧
      (braces text).count (.closing .brace) = countBare '\x7d' text := by
  have hMark : ∀ mark : Mark,
      mark.braces.count (.opening .brace) = (if mark.isBare '\x7b' then 1 else 0) ∧
        mark.braces.count (.closing .brace) = if mark.isBare '\x7d' then 1 else 0 := by
    intro mark
    rw [Mark.braces, Mark.isBare, Mark.isBare]
    cases mark.escaped with
    | true => simp
    | false =>
      by_cases hOpen : mark.char = '\x7b'
      · rw [hOpen]
        decide
      · by_cases hClose : mark.char = '\x7d'
        · rw [hClose]
          decide
        · simp [braceSigns, hOpen, hClose]
  rw [braces, countBare, countBare]
  induction marks text with
  | nil => exact ⟨rfl, rfl⟩
  | cons mark rest ih =>
    obtain ⟨hOpen, hClose⟩ := hMark mark
    simp only [List.flatMap_cons, List.count_append, List.countP_cons, hOpen, hClose, ih.1, ih.2]
    exact ⟨Nat.add_comm _ _, Nat.add_comm _ _⟩

/-- What a text opens and closes of braces, given those that are open behind it. -/
theorem countBare_of_nest {text : Text} {stack : List Written}
    (h : nest [] (braces text) = some stack) :
    countBare '\x7b' text = stack.count .brace + countBare '\x7d' text := by
  have hLevel := level_of_nest .brace h
  have hCount := level_count hLevel
  rw [List.count_nil, Nat.zero_add, (count_braces text).1, (count_braces text).2] at hCount
  exact hCount

namespace IsMatched

variable {text front : Text}

theorem count_eq (h : IsMatched text) : countBare '\x7d' text = countBare '\x7b' text := by
  have hCount := countBare_of_nest h.nested
  rw [List.count_nil, Nat.zero_add] at hCount
  exact hCount.symm

/-- No part from the start closes more braces than it opens. -/
theorem count_le (h : IsMatched text) (hFront : front <+: text) :
    countBare '\x7d' front ≤ countBare '\x7b' front := by
  obtain ⟨back, rfl⟩ := hFront
  have hNested := h.nested
  rw [IsNested, braces, marks, marksFrom_append, List.flatMap_append] at hNested
  obtain ⟨stack, hStack, -⟩ := exists_of_nest_append hNested
  have hCount := countBare_of_nest hStack
  omega

end IsMatched

end Formulary
