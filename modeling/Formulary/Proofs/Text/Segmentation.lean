import Formulary.Proofs.Text.Segment
import Mathlib.Data.List.TakeWhile
import Mathlib.Tactic.ByContra

/-!
# The segments of a text

Which segments a text has can be said without cutting it. `IsSegmentation` lists the rules: put
together they are the text and none is empty, prose has no backslash and no prose beside it, math
ends at the first `\)` behind its opening, and a stray backslash stands where no math does.

* `next_eq_iff`: the first segment, told by the text (`IsFirst`);
* `IsSegmentation.cons_iff`: the rules for a first segment and those behind it;
* `segmentsOrStop_eq`: a cut that would stop where it finds no segment, or where its bound is used
  up, never stops;
* `isSegmentation_iff`: the segments that are cut keep the rules, and no others do.
-/

namespace Formulary

open Text

namespace Segment

/-! ## Math at the front of a text -/

/-- The inner text of math: it is not empty, has no line break, and does not hold the `\)` that ends
math, so that the one behind it is the first one behind the opening. -/
structure IsMath (inner : Text) : Prop where
  nonempty : inner ≠ []
  line : '\n' ∉ inner
  closing : mentions "\\)".toList inner = false

/-- Math stands at the front of a text. -/
def OpensMath (text : Text) : Prop :=
  ∃ inner after, IsMath inner ∧ text = (math inner).slice ++ after

theorem mentions_of_cutAtClosing {text before after : Text}
    (h : cutAtClosing text = some (before, after)) : mentions "\\)".toList before = false := by
  fun_induction cutAtClosing text generalizing before with
  | case1 => cases h
  | case2 rest =>
    cases h
    rfl
  | case3 c rest hOpen ih =>
    rw [Option.map_eq_some_iff] at h
    obtain ⟨⟨inner, tail⟩, hCut, hEq⟩ := h
    cases hEq
    refine Bool.or_eq_false_iff.mpr ⟨?_, ih hCut⟩
    by_contra hFront
    rw [Bool.not_eq_false] at hFront
    obtain ⟨more, hMore⟩ := exists_of_isPrefixOf hFront
    obtain ⟨hSlash, rfl⟩ := List.cons.inj hMore
    exact hOpen _ hSlash (cutAtClosing_eq_some hCut)

theorem mathSpan?_eq_some_iff {text after : Text} {segment : Segment} :
    mathSpan? text = some (segment, after) ↔
      ∃ inner, IsMath inner ∧ segment = .math inner ∧ text = segment.slice ++ after := by
  constructor
  · intro h
    unfold mathSpan? at h
    split at h
    · rename_i rest
      split at h
      · rename_i inner behind hCut
        split at h
        · cases h
        · rename_i hInner
          cases h
          obtain ⟨hNe, hLine⟩ := not_or.mp hInner
          refine ⟨inner, ⟨hNe, hLine, mentions_of_cutAtClosing hCut⟩, rfl, ?_⟩
          rw [cutAtClosing_eq_some hCut]
          simp [slice]
      · cases h
    · cases h
  · rintro ⟨inner, hInner, rfl, rfl⟩
    exact mathSpan?_span hInner.nonempty hInner.line hInner.closing after

theorem mathSpan?_eq_none_iff {text : Text} : mathSpan? text = none ↔ ¬ OpensMath text := by
  constructor
  · rintro hNone ⟨inner, after, hInner, hText⟩
    rw [mathSpan?_eq_some_iff.mpr ⟨inner, hInner, rfl, hText⟩] at hNone
    cases hNone
  · intro hNot
    by_contra hSome
    obtain ⟨⟨segment, after⟩, hFound⟩ := Option.ne_none_iff_exists'.mp hSome
    obtain ⟨inner, hInner, rfl, hText⟩ := mathSpan?_eq_some_iff.mp hFound
    exact hNot ⟨inner, after, hInner, hText⟩

/-! ## The first segment -/

/-- A text begins with a segment and goes on with what is behind it. -/
inductive IsFirst : Text → Segment → Text → Prop
  | math {inner : Text} (hInner : IsMath inner) (after : Text) :
      IsFirst ((Segment.math inner).slice ++ after) (.math inner) after
  | prose {run after : Text} (hNe : run ≠ []) (hRun : '\\' ∉ run)
      (hEnd : after = [] ∨ ∃ tail, after = '\\' :: tail) : IsFirst (run ++ after) (.prose run) after
  | raw {after : Text} (hNot : ¬ OpensMath ('\\' :: after)) :
      IsFirst ('\\' :: after) (.raw '\\') after

theorem IsFirst.eq_append {text after : Text} {segment : Segment}
    (h : IsFirst text segment after) : text = segment.slice ++ after := by
  cases h <;> rfl

theorem eq_of_prose?_eq_none {c : Char} {rest : Text} (h : prose? (c :: rest) = none) :
    c = '\\' := by
  by_contra hc
  have hTake : (c :: rest).takeWhile (· ≠ '\\') = c :: rest.takeWhile (· ≠ '\\') :=
    List.takeWhile_cons_of_pos (decide_eq_true hc)
  rw [prose?, hTake] at h
  cases h

theorem isFirst_of_prose? {text after : Text} {segment : Segment}
    (h : prose? text = some (segment, after)) : IsFirst text segment after := by
  unfold prose? at h
  split at h
  · cases h
  · rename_i hNe
    cases h
    have hRun : '\\' ∉ text.takeWhile (· ≠ '\\') := fun hMem => by
      simpa using List.mem_takeWhile_imp hMem
    have hEnd : text.dropWhile (· ≠ '\\') = [] ∨
        ∃ tail, text.dropWhile (· ≠ '\\') = '\\' :: tail := by
      cases hDrop : text.dropWhile (· ≠ '\\') with
      | nil => exact .inl rfl
      | cons c tail =>
        have hHead := List.head?_dropWhile_not (· ≠ '\\') text
        rw [hDrop] at hHead
        exact .inr ⟨tail, by simpa using hHead⟩
    have hFirst := IsFirst.prose hNe hRun hEnd
    rwa [List.takeWhile_append_dropWhile] at hFirst

/-- The first segment is told by the text. -/
theorem next_eq_iff {c : Char} {rest after : Text} {segment : Segment} :
    next c rest = (segment, after) ↔ IsFirst (c :: rest) segment after := by
  constructor
  · intro h
    rw [next] at h
    cases hMath : mathSpan? (c :: rest) with
    | some found =>
      rw [hMath, Option.some_or, Option.getD_some] at h
      obtain ⟨inner, hInner, rfl, hText⟩ := mathSpan?_eq_some_iff.mp (h ▸ hMath)
      exact hText ▸ .math hInner after
    | none =>
      rw [hMath, Option.none_or] at h
      cases hProse : prose? (c :: rest) with
      | some found =>
        rw [hProse, Option.getD_some] at h
        exact isFirst_of_prose? (h ▸ hProse)
      | none =>
        rw [hProse, Option.getD_none] at h
        obtain rfl := eq_of_prose?_eq_none hProse
        cases h
        exact .raw (mathSpan?_eq_none_iff.mp hMath)
  · generalize hText : c :: rest = text
    intro h
    cases h with
    | math hInner after =>
      obtain ⟨rfl, rfl⟩ := List.cons.inj hText
      exact next_span hInner.nonempty hInner.line hInner.closing after
    | prose hNe hRun hEnd =>
      obtain ⟨d, run, rfl⟩ := List.exists_cons_of_ne_nil hNe
      obtain ⟨rfl, rfl⟩ := List.cons.inj hText
      exact next_prose hRun hEnd
    | raw hNot =>
      obtain ⟨rfl, rfl⟩ := List.cons.inj hText
      rw [next, mathSpan?_eq_none_iff.mpr hNot]
      rfl

end Segment

/-! ## A cut that may stop -/

/-- The first segment of a text, unless there is none. -/
def Segment.find? : Text → Option (Segment × Text)
  | [] => none
  | c :: rest => ((mathSpan? (c :: rest)).or (prose? (c :: rest))).or (some (.raw c, rest))

/-- Cut a text into segments. The cut stops where there is no segment, and where the bound is used
up before the text. -/
def segmentsOrStop : Nat → Text → Option (List Segment)
  | _, [] => some []
  | 0, _ :: _ => none
  | bound + 1, c :: rest => do
    let (segment, after) ← Segment.find? (c :: rest)
    return segment :: (← segmentsOrStop bound after)

theorem Segment.find?_cons (c : Char) (rest : Text) :
    Segment.find? (c :: rest) = some (Segment.next c rest) := by
  rw [find?, next, Option.or_some]

/-- With a character of the text for each step, the cut does not stop. -/
theorem segmentsOrStop_eq {bound : Nat} {text : Text} (h : text.length ≤ bound) :
    segmentsOrStop bound text = some (segments text) := by
  induction bound generalizing text with
  | zero =>
    obtain rfl := List.length_eq_zero_iff.mp (Nat.le_zero.mp h)
    rfl
  | succ bound ih =>
    cases text with
    | nil => rfl
    | cons c rest =>
      have hAfter := Segment.next_length_le c rest
      rw [List.length_cons] at h
      rw [segmentsOrStop, Segment.find?_cons, segments_cons, Option.bind_eq_bind, Option.bind_some]
      simp only
      rw [ih (by omega)]
      rfl

/-! ## The rules -/

/-- The rules of the segments of a text. -/
structure IsSegmentation (text : Text) (list : List Segment) : Prop where
  lossless : list.flatMap Segment.slice = text
  nonempty : ∀ segment ∈ list, segment.slice ≠ []
  prose : ∀ run, .prose run ∈ list → '\\' ∉ run
  apart : ∀ before run more after, list ≠ before ++ .prose run :: .prose more :: after
  raw : ∀ before c after, list = before ++ .raw c :: after →
    c = '\\' ∧ ¬ Segment.OpensMath (c :: after.flatMap Segment.slice)
  math : ∀ inner, .math inner ∈ list → Segment.IsMath inner

namespace IsSegmentation

variable {text : Text} {segment : Segment} {list : List Segment}

theorem nil : IsSegmentation [] [] where
  lossless := rfl
  nonempty := nofun
  prose := nofun
  apart before _ _ _ h := by cases before <;> cases h
  raw before _ _ h := by cases before <;> cases h
  math := nofun

theorem tail (h : IsSegmentation text (segment :: list)) :
    IsSegmentation (list.flatMap Segment.slice) list where
  lossless := rfl
  nonempty other hMem := h.nonempty other (List.mem_cons_of_mem _ hMem)
  prose run hMem := h.prose run (List.mem_cons_of_mem _ hMem)
  apart before run more after hList := h.apart (segment :: before) run more after (hList ▸ rfl)
  raw before c after hList := h.raw (segment :: before) c after (hList ▸ rfl)
  math inner hMem := h.math inner (List.mem_cons_of_mem _ hMem)

/-- Behind prose the text ends or goes on with a backslash. -/
theorem ends_prose {run : Text} (h : IsSegmentation text (.prose run :: list)) :
    list.flatMap Segment.slice = [] ∨ ∃ tail, list.flatMap Segment.slice = '\\' :: tail := by
  cases list with
  | nil => exact .inl rfl
  | cons second rest =>
    cases second with
    | math inner => exact .inr ⟨_, rfl⟩
    | prose more => exact absurd rfl (h.apart [] run more rest)
    | raw c =>
      obtain ⟨rfl, -⟩ := h.raw [.prose run] c rest rfl
      exact .inr ⟨_, rfl⟩

theorem isFirst (h : IsSegmentation text (segment :: list)) :
    Segment.IsFirst text segment (list.flatMap Segment.slice) := by
  have hText := h.lossless
  rw [List.flatMap_cons] at hText
  cases segment with
  | math inner => exact hText ▸ .math (h.math inner List.mem_cons_self) _
  | prose run =>
    exact hText ▸ .prose (h.nonempty _ List.mem_cons_self) (h.prose run List.mem_cons_self)
      h.ends_prose
  | raw c =>
    obtain ⟨rfl, hNot⟩ := h.raw [] c list rfl
    exact hText ▸ .raw hNot

theorem cons {after : Text} (hFirst : Segment.IsFirst text segment after)
    (h : IsSegmentation after list) : IsSegmentation text (segment :: list) where
  lossless := by rw [List.flatMap_cons, h.lossless, hFirst.eq_append]
  nonempty := by
    refine List.forall_mem_cons.mpr ⟨?_, h.nonempty⟩
    cases hFirst with
    | math => exact List.cons_ne_nil _ _
    | prose hNe => exact hNe
    | raw => exact List.cons_ne_nil _ _
  prose run hMem := by
    rcases List.mem_cons.mp hMem with rfl | hTail
    · cases hFirst
      assumption
    · exact h.prose run hTail
  apart before run more rest hList := by
    cases before with
    | nil =>
      obtain ⟨rfl, rfl⟩ := List.cons.inj hList
      have hMem : Segment.prose more ∈ .prose more :: rest := List.mem_cons_self
      obtain ⟨c, more, rfl⟩ := List.exists_cons_of_ne_nil (h.nonempty _ hMem)
      have hAfter := h.lossless
      cases hFirst with
      | prose _ _ hEnd =>
        rcases hEnd with rfl | ⟨tail, rfl⟩
        · cases hAfter
        · obtain ⟨rfl, -⟩ := List.cons.inj hAfter
          exact h.prose _ hMem List.mem_cons_self
    | cons head before => exact h.apart before run more rest (List.cons.inj hList).2
  raw before c rest hList := by
    cases before with
    | nil =>
      obtain ⟨rfl, rfl⟩ := List.cons.inj hList
      cases hFirst with
      | raw hNot => exact ⟨rfl, h.lossless.symm ▸ hNot⟩
    | cons head before => exact h.raw before c rest (List.cons.inj hList).2
  math inner hMem := by
    rcases List.mem_cons.mp hMem with rfl | hTail
    · cases hFirst
      assumption
    · exact h.math inner hTail

theorem cons_iff : IsSegmentation text (segment :: list) ↔
    ∃ after, Segment.IsFirst text segment after ∧ IsSegmentation after list :=
  ⟨fun h => ⟨_, h.isFirst, h.tail⟩, fun ⟨_, hFirst, h⟩ => cons hFirst h⟩

end IsSegmentation

/-- The segments of a text keep the rules, and no other list does. -/
theorem isSegmentation_iff_eq {text : Text} {list : List Segment} :
    IsSegmentation text list ↔ list = segments text := by
  generalize hLength : text.length = bound
  induction bound using Nat.strongRecOn generalizing text list with
  | ind bound ih =>
    cases text with
    | nil =>
      refine ⟨fun h => ?_, fun h => h ▸ .nil⟩
      cases list with
      | nil => rfl
      | cons segment list =>
        exact absurd (List.append_eq_nil_iff.mp h.lossless).1
          (h.nonempty segment List.mem_cons_self)
    | cons c rest =>
      have hAfter := Segment.next_length_le c rest
      have hRest := @ih (Segment.next c rest).2.length (by rw [← hLength, List.length_cons]; omega)
        (Segment.next c rest).2
      rw [segments_cons]
      cases list with
      | nil => exact iff_of_false (fun h => nomatch h.lossless) nofun
      | cons segment list =>
        rw [IsSegmentation.cons_iff, List.cons.injEq, ← hRest rfl]
        constructor
        · rintro ⟨after, hFirst, h⟩
          rw [Segment.next_eq_iff.mpr hFirst]
          exact ⟨rfl, h⟩
        · rintro ⟨rfl, h⟩
          exact ⟨_, Segment.next_eq_iff.mp rfl, h⟩

/-- The cut of a text into segments never stops, and its segments are the only ones that keep the
rules. -/
theorem isSegmentation_iff (text : Text) :
    (∀ more, segmentsOrStop (text.length + more) text = some (segments text)) ∧
    ∀ list, IsSegmentation text list ↔ list = segments text :=
  ⟨fun more => segmentsOrStop_eq (Nat.le_add_right _ more), fun _ => isSegmentation_iff_eq⟩

end Formulary
