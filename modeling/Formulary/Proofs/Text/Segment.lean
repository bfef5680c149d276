import Formulary.Proofs.Text.Search
import Formulary.Text.Segment

/-!
# Cutting localized text

The first segment of a text never leaves more than its tail, so the bound of `segmentsWithin` plays
no part (`segmentsWithin_congr`) and `segments_cons` cuts off one segment at a time. The segment is
known when the text begins with inline math (`next_span`) or with prose (`next_prose`). Put together
again, the segments of a text are the text (`flatMap_slice_segments`).
-/

namespace Formulary

open Text

namespace Segment

/-! ## Math spans -/

theorem cutAtClosing_eq_some {text before after : Text}
    (h : cutAtClosing text = some (before, after)) :
    text = before ++ "\\)".toList ++ after := by
  fun_induction cutAtClosing text generalizing before with
  | case1 => cases h
  | case2 rest =>
    cases h
    rfl
  | case3 c rest _ ih =>
    rw [Option.map_eq_some_iff] at h
    obtain ⟨⟨inner, tail⟩, hCut, hEq⟩ := h
    cases hEq
    rw [ih hCut]
    rfl

/-- A text without `\)` before `\)` is cut there, also when it ends in a backslash. -/
theorem cutAtClosing_append {inner : Text} (h : mentions "\\)".toList inner = false)
    (after : Text) : cutAtClosing (inner ++ "\\)".toList ++ after) = some (inner, after) := by
  induction inner with
  | nil => rfl
  | cons c inner ih =>
    obtain ⟨hHere, hLater⟩ := Bool.or_eq_false_iff.mp h
    have hOpen : ∀ rest, c :: (inner ++ "\\)".toList ++ after) ≠ '\\' :: ')' :: rest := by
      intro rest hEq
      obtain ⟨rfl, hRest⟩ := List.cons.inj hEq
      cases inner with
      | nil => cases hRest
      | cons d inner =>
        obtain ⟨rfl, -⟩ := List.cons.inj hRest
        cases hHere
    rw [List.cons_append, List.cons_append, cutAtClosing, ih hLater]
    · rfl
    · intro rest hSlash hRest
      exact hOpen rest (by rw [hSlash, hRest])

theorem mathSpan?_length_le {c : Char} {rest after : Text} {segment : Segment}
    (h : mathSpan? (c :: rest) = some (segment, after)) : after.length ≤ rest.length := by
  unfold mathSpan? at h
  split at h
  · rename_i tail hText
    split at h
    · rename_i inner behind hCut
      split at h
      · cases h
      · cases h
        have hLength := congrArg List.length (cutAtClosing_eq_some hCut)
        rw [List.length_append, List.length_append] at hLength
        rw [(List.cons.inj hText).2, List.length_cons]
        omega
    · cases h
  · cases h

theorem span_append (inner after : Text) :
    "\\(".toList ++ inner ++ "\\)".toList ++ after =
      '\\' :: '(' :: (inner ++ "\\)".toList ++ after) := rfl

theorem mathSpan?_span {inner : Text} (hNe : inner ≠ []) (hLine : '\n' ∉ inner)
    (hClosing : mentions "\\)".toList inner = false) (after : Text) :
    mathSpan? ("\\(".toList ++ inner ++ "\\)".toList ++ after) = some (.math inner, after) := by
  have hInner : ¬(inner = [] ∨ '\n' ∈ inner) := not_or.mpr ⟨hNe, hLine⟩
  rw [span_append, mathSpan?, cutAtClosing_append hClosing]
  exact if_neg hInner

/-! ## Prose -/

theorem takeWhile_prose {run rest : Text} (hRun : '\\' ∉ run)
    (hRest : rest = [] ∨ ∃ tail, rest = '\\' :: tail) :
    (run ++ rest).takeWhile (· ≠ '\\') = run ∧ (run ++ rest).dropWhile (· ≠ '\\') = rest := by
  have hPlain : ∀ c ∈ run, decide (c ≠ '\\') = true :=
    fun c hMem => decide_eq_true fun hEq => hRun (hEq ▸ hMem)
  rw [List.takeWhile_append_of_pos hPlain, List.dropWhile_append_of_pos hPlain]
  rcases hRest with rfl | ⟨tail, rfl⟩
  · exact ⟨List.append_nil run, rfl⟩
  · exact ⟨List.append_nil run, rfl⟩

theorem mathSpan?_prose {c : Char} (hc : c ≠ '\\') (rest : Text) :
    mathSpan? (c :: rest) = none := by
  unfold mathSpan?
  split
  · rename_i tail hText
    exact absurd (List.cons.inj hText).1 hc
  · rfl

theorem prose?_length_le {c : Char} {rest after : Text} {segment : Segment}
    (h : prose? (c :: rest) = some (segment, after)) : after.length ≤ rest.length := by
  unfold prose? at h
  split at h
  · cases h
  · rename_i hNe
    cases h
    by_cases hc : c = '\\'
    · subst hc
      exact absurd rfl hNe
    · have hTail : (c :: rest).dropWhile (· ≠ '\\') = rest.dropWhile (· ≠ '\\') :=
        List.dropWhile_cons_of_pos (decide_eq_true hc)
      rw [hTail]
      exact (List.dropWhile_suffix _).length_le

/-! ## The first segment -/

theorem next_length_le (c : Char) (rest : Text) : (next c rest).2.length ≤ rest.length := by
  rw [next]
  cases hMath : mathSpan? (c :: rest) with
  | some found => exact mathSpan?_length_le hMath
  | none =>
    cases hProse : prose? (c :: rest) with
    | some found => exact prose?_length_le hProse
    | none => exact Nat.le_refl _

theorem next_span {inner : Text} (hNe : inner ≠ []) (hLine : '\n' ∉ inner)
    (hClosing : mentions "\\)".toList inner = false) (after : Text) :
    next '\\' ('(' :: (inner ++ "\\)".toList ++ after)) = (.math inner, after) := by
  have hSpan := mathSpan?_span hNe hLine hClosing after
  rw [span_append] at hSpan
  rw [next, hSpan]
  rfl

theorem next_prose {c : Char} {run rest : Text} (hRun : '\\' ∉ c :: run)
    (hRest : rest = [] ∨ ∃ tail, rest = '\\' :: tail) :
    next c (run ++ rest) = (.prose (c :: run), rest) := by
  have hc : c ≠ '\\' := fun hEq => hRun (hEq ▸ List.mem_cons_self)
  obtain ⟨hTake, hDrop⟩ := takeWhile_prose hRun hRest
  rw [List.cons_append] at hTake hDrop
  rw [next, mathSpan?_prose hc, Option.none_or, prose?, hTake, hDrop]
  rfl

/-- The first segment is a piece of the text. -/
theorem slice_next (c : Char) (rest : Text) :
    (next c rest).1.slice ++ (next c rest).2 = c :: rest := by
  rw [next]
  cases hMath : mathSpan? (c :: rest) with
  | some found =>
    unfold mathSpan? at hMath
    split at hMath
    · rename_i tail hText
      split at hMath
      · rename_i inner after hCut
        split at hMath
        · cases hMath
        · cases hMath
          rw [hText, cutAtClosing_eq_some hCut]
          simp [slice]
      · cases hMath
    · cases hMath
  | none =>
    cases hProse : prose? (c :: rest) with
    | some found =>
      unfold prose? at hProse
      split at hProse
      · cases hProse
      · cases hProse
        exact List.takeWhile_append_dropWhile
    | none => rfl

end Segment

/-! ## All segments -/

theorem segmentsWithin_cons (bound : Nat) (c : Char) (rest : Text) :
    segmentsWithin (bound + 1) (c :: rest) =
      (Segment.next c rest).1 :: segmentsWithin bound (Segment.next c rest).2 := rfl

/-- Two bounds that suffice give the same segments. -/
theorem segmentsWithin_congr {bound other : Nat} {text : Text} (hBound : text.length ≤ bound)
    (hOther : text.length ≤ other) : segmentsWithin bound text = segmentsWithin other text := by
  induction bound generalizing other text with
  | zero =>
    obtain rfl := List.length_eq_zero_iff.mp (Nat.le_zero.mp hBound)
    cases other <;> rfl
  | succ bound ih =>
    cases text with
    | nil => cases other <;> rfl
    | cons c rest =>
      rw [List.length_cons] at hBound hOther
      obtain ⟨other, rfl⟩ : ∃ less, other = less + 1 := ⟨other - 1, by omega⟩
      have hAfter := Segment.next_length_le c rest
      rw [segmentsWithin_cons, segmentsWithin_cons]
      exact congrArg _ (ih (by omega) (by omega))

theorem segments_cons (c : Char) (rest : Text) :
    segments (c :: rest) =
      (Segment.next c rest).1 :: segments (Segment.next c rest).2 := by
  rw [segments, List.length_cons, segmentsWithin_cons]
  exact congrArg _ (segmentsWithin_congr (Segment.next_length_le c rest) (Nat.le_refl _))

/-- Segments lose and add no character. -/
theorem flatMap_slice_segments (text : Text) : (segments text).flatMap Segment.slice = text := by
  generalize hLength : text.length = bound
  induction bound using Nat.strongRecOn generalizing text with
  | ind bound ih =>
    cases text with
    | nil => rfl
    | cons c rest =>
      have hAfter := Segment.next_length_le c rest
      rw [List.length_cons] at hLength
      rw [segments_cons, List.flatMap_cons, ih _ (by omega) _ rfl, Segment.slice_next]

/-- Inline math at the front is cut off as it was put there. -/
theorem segments_span {inner : Text} (hNe : inner ≠ []) (hLine : '\n' ∉ inner)
    (hClosing : mentions "\\)".toList inner = false) (after : Text) :
    segments ("\\(".toList ++ inner ++ "\\)".toList ++ after) = .math inner :: segments after := by
  rw [Segment.span_append, segments_cons, Segment.next_span hNe hLine hClosing]

theorem segments_prose {run rest : Text} (hNe : run ≠ []) (hRun : '\\' ∉ run)
    (hRest : rest = [] ∨ ∃ tail, rest = '\\' :: tail) :
    segments (run ++ rest) = .prose run :: segments rest := by
  cases run with
  | nil => exact absurd rfl hNe
  | cons c run => rw [List.cons_append, segments_cons, Segment.next_prose hRun hRest]

end Formulary
