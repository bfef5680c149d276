import Formulary.Proofs.Markup.Word
import Formulary.Proofs.Text.Segmentation
import Mathlib.Algebra.Group.Nat.Even

/-!
# Prose behind backslashes

Markup is read from the left, and of a row of backslashes every second one is escaped. `slashRun`
counts the backslashes that a text ends in: what follows is escaped when their number is odd
(`through_eq_slash_iff`).

Prose is localized as `\text` with the run between braces, and a stray backslash stays as it is,
also when it stands right before prose. The backslash of `\text` is then escaped: an odd number of
stray backslashes before prose leaves a row break and the letters `text` (`exists_escaped_wrapper`),
an even number leaves the command (`wrapper_isCommand_iff`).
-/

namespace Formulary

open Text

/-! ## The backslashes at the end of a text -/

/-- How many backslashes a text ends in. -/
def Text.slashRun (text : Text) : Nat := (text.reverse.takeWhile (· = '\\')).length

theorem slashRun_append_of_all {word : Text} (h : ∀ c ∈ word, c = '\\') (text : Text) :
    slashRun (text ++ word) = slashRun text + word.length := by
  have hAll : ∀ c ∈ word.reverse, decide (c = '\\') = true := fun c hMem =>
    decide_eq_true (h c (List.mem_reverse.mp hMem))
  rw [slashRun, List.reverse_append, List.takeWhile_append_of_pos hAll, List.length_append,
    List.length_reverse, Nat.add_comm, slashRun]

theorem slashRun_append_of_ne {word : Text} {c : Char} (hMem : c ∈ word) (hc : c ≠ '\\')
    (text : Text) : slashRun (text ++ word) = slashRun word := by
  have hShort : (word.reverse.takeWhile (· = '\\')).length ≠ word.reverse.length := by
    intro hLength
    have hAll := (List.takeWhile_prefix (· = '\\')).eq_of_length hLength
    have hLast := List.takeWhile_eq_self_iff.mp hAll c (List.mem_reverse.mpr hMem)
    exact hc (of_decide_eq_true hLast)
  rw [slashRun, List.reverse_append, List.takeWhile_append, if_neg hShort, slashRun]

theorem slashRun_concat_slash (text : Text) : slashRun (text ++ ['\\']) = slashRun text + 1 :=
  slashRun_append_of_all (fun _ => List.mem_singleton.mp) text

theorem slashRun_concat_of_ne {c : Char} (hc : c ≠ '\\') (text : Text) :
    slashRun (text ++ [c]) = 0 := by
  rw [slashRun_append_of_ne List.mem_cons_self hc]
  simp [slashRun, hc]

/-- What follows a text is escaped when the text ends in an odd number of backslashes. -/
theorem through_eq_slash_iff {text : Text} :
    Lead.plain.through text = .slash ↔ ¬ Even (slashRun text) := by
  induction text using List.reverseRecOn with
  | nil => exact iff_of_false nofun (not_not_intro ⟨0, rfl⟩)
  | append_singleton text c ih =>
    rw [through_append]
    change (Lead.plain.through text).after c = .slash ↔ _
    rw [after_eq_slash]
    by_cases hc : c = '\\'
    · subst hc
      rw [slashRun_concat_slash, Nat.even_add_one, ← ih]
      simp
    · rw [slashRun_concat_of_ne hc]
      simp [hc]

/-! ## Stray backslashes -/

namespace Segment

/-- The markup of the segment is nothing but backslashes. -/
def isSlashes (segment : Segment) : Bool := segment.markup.all (· = '\\')

/-- The segment is a stray backslash. -/
def isRaw : Segment → Bool
  | .raw _ => true
  | _ => false

theorem isSlashes_prose (run : Text) : isSlashes (.prose run) = false := rfl

theorem slashRun_prose (run : Text) : slashRun (markup (.prose run)) = 0 := by
  have hBrace : '\x7d' ≠ '\\' := by decide
  rw [markup, braced, ← List.append_assoc]
  exact slashRun_concat_of_ne hBrace _

end Segment

/-- How many stray backslashes stand at the end of segments, with nothing between them but math that
consists of backslashes. -/
def strays (list : List Segment) : Nat :=
  (list.reverse.takeWhile Segment.isSlashes).countP Segment.isRaw

theorem strays_concat (list : List Segment) (segment : Segment) :
    strays (list ++ [segment]) =
      if segment.isSlashes then (if segment.isRaw then 1 else 0) + strays list else 0 := by
  rw [strays, List.reverse_append, List.reverse_singleton, List.singleton_append,
    List.takeWhile_cons]
  split
  · rw [List.countP_cons, strays, Nat.add_comm]
  · rfl

/-- Where math ends in an even number of backslashes, only stray ones make the number odd. -/
theorem even_slashRun_iff {list : List Segment} (hRaw : ∀ c, .raw c ∈ list → c = '\\')
    (hMath : ∀ inner, .math inner ∈ list → Even (slashRun inner)) :
    Even (slashRun (list.flatMap Segment.markup)) ↔ Even (strays list) := by
  -- From the end, since a segment that is not all backslashes hides those before it.
  induction list using List.reverseRecOn with
  | nil => exact Iff.rfl
  | append_singleton list segment ih =>
    have hBefore := ih (fun c hMem => hRaw c (List.mem_append_left _ hMem))
      fun inner hMem => hMath inner (List.mem_append_left _ hMem)
    have hLast : segment ∈ list ++ [segment] := List.mem_append_right _ List.mem_cons_self
    rw [List.flatMap_append, List.flatMap_singleton, strays_concat]
    cases segment with
    | prose run =>
      have hBrace : '\x7d' ∈ Segment.markup (.prose run) := by simp [Segment.markup, braced]
      rw [slashRun_append_of_ne hBrace (by decide), Segment.slashRun_prose, Segment.isSlashes_prose]
      exact Iff.rfl
    | raw c =>
      obtain rfl := hRaw c hLast
      change Even (slashRun (list.flatMap Segment.markup ++ ['\\'])) ↔ Even (1 + strays list)
      rw [slashRun_concat_slash, Nat.add_comm 1, Nat.even_add_one, Nat.even_add_one, hBefore]
    | math inner =>
      have hInner := hMath inner hLast
      by_cases hAll : ∀ c ∈ inner, c = '\\'
      · have hSlashes : Segment.isSlashes (.math inner) = true := by
          simpa [Segment.isSlashes, Segment.markup] using hAll
        have hLength : slashRun inner = inner.length := by
          simpa [slashRun] using slashRun_append_of_all hAll []
        rw [hLength] at hInner
        rw [Segment.markup, slashRun_append_of_all hAll, hSlashes, Nat.even_add, hBefore]
        simp [Segment.isRaw, hInner]
      · have hSlashes : Segment.isSlashes (.math inner) = false := by
          simpa [Segment.isSlashes, Segment.markup] using hAll
        obtain ⟨c, hMem, hc⟩ : ∃ c ∈ inner, c ≠ '\\' := by simpa using hAll
        rw [Segment.markup, slashRun_append_of_ne hMem hc, hSlashes]
        exact iff_of_true hInner ⟨0, rfl⟩

/-! ## Localized prose -/

/-- A wrapper is read as the command `\text` when its backslash is not escaped. -/
theorem through_wrapper_iff {front : Text} :
    Lead.plain.through (front ++ "\\text".toList) = .word "text".toList ↔
      Even (slashRun front) := by
  rw [through_eq_word]
  constructor
  · rintro ⟨before, hFront, hBare, -⟩
    obtain rfl : front = before := List.append_cancel_right hFront
    exact not_not.mp (mt through_eq_slash_iff.mpr hBare)
  · intro hEven
    have hLetters : "text".toList.all Char.isAlpha := by decide
    exact ⟨front, rfl, fun hSlash => through_eq_slash_iff.mp hSlash hEven, by decide,
      List.all_eq_true.mp hLetters⟩

/-- Where math ends in an even number of backslashes, the wrapper of prose is a command exactly when
an even number of stray backslashes stands directly before the prose. -/
theorem wrapper_isCommand_iff {text run : Text} {before after : List Segment}
    (hMath : ∀ inner, .math inner ∈ segments text → Even (slashRun inner))
    (hText : segments text = before ++ .prose run :: after) :
    localize text = before.flatMap Segment.markup ++ ("\\text".toList ++ braced run) ++
      after.flatMap Segment.markup ∧
    (Even (slashRun (before.flatMap Segment.markup)) ↔ Even (strays before)) ∧
    (Lead.plain.through (before.flatMap Segment.markup ++ "\\text".toList) = .word "text".toList ↔
      Even (strays before)) := by
  have hRules : IsSegmentation text (segments text) := isSegmentation_iff_eq.mpr rfl
  rw [hText] at hMath hRules
  have hRaw : ∀ c, .raw c ∈ before → c = '\\' := by
    intro c hMem
    obtain ⟨first, second, hSplit⟩ := List.append_of_mem (List.mem_append_left _ hMem)
    exact (hRules.raw first c second hSplit).1
  have hEven := even_slashRun_iff hRaw fun inner hMem => hMath inner (List.mem_append_left _ hMem)
  refine ⟨?_, hEven, through_wrapper_iff.trans hEven⟩
  rw [localize, hText, List.flatMap_append, List.flatMap_cons, List.append_assoc]
  rfl

/-- Math that ends in a row break, prose behind two stray backslashes, and prose behind one. -/
def rowsText : Text := "\\(a\\\\\\)\\\\b\\c".toList

theorem segments_rowsText : segments rowsText =
    [.math "a\\\\".toList, .raw '\\', .raw '\\', .prose ['b'], .raw '\\', .prose ['c']] := by
  decide +kernel

/-- Two stray backslashes leave the command, one does not. -/
theorem wrapper_isCommand_rowsText :
    (∀ inner, .math inner ∈ segments rowsText → Even (slashRun inner)) ∧
    localize rowsText = "a\\\\\\\\\\text\x7bb\x7d\\\\text\x7bc\x7d".toList ∧
    Even (slashRun "a\\\\\\\\".toList) ∧
    ¬ Even (slashRun "a\\\\\\\\\\text\x7bb\x7d\\".toList) := by
  have hMath : ∀ inner, .math inner ∈ segments rowsText → Even (slashRun inner) := by
    intro inner hMem
    rw [segments_rowsText] at hMem
    simp only [List.mem_cons, Segment.math.injEq, reduceCtorEq, List.not_mem_nil, or_self,
      or_false] at hMem
    rw [hMem]
    decide
  have hFirst : segments rowsText = [.math "a\\\\".toList, .raw '\\', .raw '\\'] ++
      .prose ['b'] :: [.raw '\\', .prose ['c']] := segments_rowsText
  have hSecond : segments rowsText = [.math "a\\\\".toList, .raw '\\', .raw '\\', .prose ['b'],
      .raw '\\'] ++ .prose ['c'] :: [] := segments_rowsText
  obtain ⟨hLocal, hTwo, -⟩ := wrapper_isCommand_iff hMath hFirst
  obtain ⟨-, hOne, -⟩ := wrapper_isCommand_iff hMath hSecond
  exact ⟨hMath, hLocal, hTwo.mpr (by decide), mt hOne.mp (by decide)⟩

/-- A stray backslash before prose escapes the wrapper, although the text has no math at all. -/
theorem exists_escaped_wrapper : ∃ text before run after,
    (∀ inner, .math inner ∈ segments text → Even (slashRun inner)) ∧
    segments text = before ++ .prose run :: after ∧
    localize text = "\\text\x7bnow \x7d\\\\text\x7b, ok\x7d".toList ∧
    ¬ Even (slashRun (before.flatMap Segment.markup)) := by
  have hSegments : segments "now \\, ok".toList =
      [.prose "now ".toList, .raw '\\'] ++ .prose ", ok".toList :: [] := by decide +kernel
  refine ⟨"now \\, ok".toList, _, _, _, fun inner hMem => ?_, hSegments, by decide +kernel,
    by decide⟩
  rw [hSegments] at hMem
  simp at hMem

end Formulary
