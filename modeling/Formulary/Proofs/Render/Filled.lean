import Formulary.Proofs.Render.Template
import Formulary.Proofs.Render.Value
import Formulary.Proofs.Text.Open
import Mathlib.Algebra.GroupWithZero.Nat

/-!
# Filled templates as part of other math

A template without a backslash that is filled with inline math consists of prose and inline math, in
any order and with any number of arguments (`Laid.fill`), as long as the math does not mention a
placeholder. Its markup has what prose and the inner texts of the math have, and what can be counted
adds up (`Laid.localize`), although empty math is not read as such. When the math also stays on one
line and keeps math open, so does the markup of the filled template (`keepsOpen_localize_fill`).
-/

namespace Formulary

open Text Placeholder

/-- Inline math within which none ends and no value is put. -/
structure IsCalm (inner : Text) : Prop where
  line : '\n' ∉ inner
  opens : KeepsOpen inner
  placeholder : mentions "ARG".toList inner = false

theorem IsCalm.isInner {inner : Text} (h : IsCalm inner) (hNe : inner ≠ []) : IsInner inner where
  nonempty := hNe
  line := h.line
  closing := (h.opens false).mentions
  placeholder := h.placeholder

/-- A text of prose and inline math, with the inner texts of the math in order. -/
inductive Laid : List Text → Text → Prop
  | nil : Laid [] []
  | prose {inners : List Text} {c : Char} {rest : Text} (hc : c ≠ '\\') (h : Laid inners rest) :
    Laid inners (c :: rest)
  | span {inner : Text} {inners : List Text} {rest : Text} (h : Laid inners rest) :
    Laid (inner :: inners) (Markup.wrap .inline inner ++ rest)

namespace Laid

variable {inners : List Text}

theorem of_not_mem {text : Text} (h : '\\' ∉ text) : Laid [] text := by
  induction text with
  | nil => exact .nil
  | cons c rest ih =>
    obtain ⟨hc, hRest⟩ := not_or.mp (mt List.mem_cons.mpr h)
    exact .prose (Ne.symm hc) (ih hRest)

theorem of_append {word rest : Text} (hWord : '\\' ∉ word) (h : Laid inners (word ++ rest)) :
    Laid inners rest := by
  induction word with
  | nil => exact h
  | cons c word ih =>
    obtain ⟨hc, hTail⟩ := not_or.mp (mt List.mem_cons.mpr hWord)
    refine ih hTail ?_
    generalize hText : c :: word ++ rest = text at h
    cases h with
    | nil => cases hText
    | prose _ hRest =>
      obtain ⟨-, rfl⟩ := List.cons.inj hText
      exact hRest
    | span _ => exact absurd (List.cons.inj hText).1.symm hc

/-- Prose up to the first backslash. -/
theorem exists_run {text : Text} (h : Laid inners text) :
    ∃ run rest, text = run ++ rest ∧ '\\' ∉ run ∧ Laid inners rest ∧
      (rest = [] ∨ ∃ tail, rest = '\\' :: tail) := by
  induction h with
  | nil => exact ⟨[], [], rfl, List.not_mem_nil, .nil, .inl rfl⟩
  | @prose inners c rest hc _ ih =>
    obtain ⟨run, after, rfl, hRun, hAfter, hStart⟩ := ih
    have hMore : '\\' ∉ c :: run := List.not_mem_cons_of_ne_of_not_mem (Ne.symm hc) hRun
    exact ⟨c :: run, after, rfl, hMore, hAfter, hStart⟩
  | span hRest _ => exact ⟨[], _, rfl, List.not_mem_nil, .span hRest, .inr ⟨_, rfl⟩⟩

/-! ## Filling -/

/-- Putting inline math into a text adds its inner text as often as it is put. -/
theorem put (hSpan : ∀ other ∈ inners, IsSpan (Markup.wrap .inline other)) {text : Text}
    (hText : Laid inners text) (inner : Text) (mode : Substitution) (position : Nat) :
    ∃ others, Laid others (put mode position (Markup.wrap .inline inner) text) ∧
      others.Perm (List.replicate (puts mode position text) inner ++ inners) := by
  generalize hLength : text.length = bound
  induction bound using Nat.strongRecOn generalizing inners text with
  | ind bound ih =>
    cases hText with
    | nil =>
      refine ⟨[], by cases mode <;> exact .nil, ?_⟩
      rw [puts_nil]
      exact .refl _
    | @prose _ c rest hc hRest =>
      by_cases hName : (name position).isPrefixOf (c :: rest)
      · obtain ⟨after, hAfter⟩ := exists_of_isPrefixOf hName
        have hBehind : Laid inners after :=
          of_append (slash_not_mem_name position) (hAfter ▸ .prose hc hRest)
        rw [hAfter, put_name, puts_name]
        split
        · exact ⟨inner :: inners, .span hBehind, .refl _⟩
        · have hPos := List.length_pos_iff.mpr (name_ne_nil position)
          have hShort : after.length < bound := by
            rw [hAfter, List.length_append] at hLength
            omega
          obtain ⟨others, hLaid, hPerm⟩ := ih after.length hShort hSpan hBehind rfl
          refine ⟨inner :: others, .span hLaid, ?_⟩
          rw [Nat.add_comm, List.replicate_succ]
          exact hPerm.cons inner
      · have hNone := Bool.eq_false_of_not_eq_true hName
        have hShort : rest.length < bound := by
          rw [← hLength]
          exact Nat.lt_succ_self _
        obtain ⟨others, hLaid, hPerm⟩ := ih rest.length hShort hSpan hRest rfl
        rw [put_cons hNone, puts_cons hNone]
        exact ⟨others, .prose hc hLaid, hPerm⟩
    | @span other inners rest hRest =>
      have hHere := hSpan other List.mem_cons_self
      have hShort : rest.length < bound := by
        rw [wrap_inline] at hLength
        simp at hLength
        omega
      obtain ⟨others, hLaid, hPerm⟩ := ih rest.length hShort
        (fun more hMore => hSpan more (List.mem_cons_of_mem _ hMore)) hRest rfl
      rw [put_span hHere, puts_span hHere]
      exact ⟨other :: others, .span hLaid, (hPerm.cons other).trans List.perm_middle.symm⟩

/-- Inner texts, each as often as its count says. -/
def repeated (counts : List Nat) (values : List Text) : List Text :=
  (counts.zip values).flatMap fun (count, value) => List.replicate count value

theorem fillFrom {values : List Text}
    (hSpan : ∀ inner ∈ values ++ inners, IsSpan (Markup.wrap .inline inner))
    (mode : Substitution) (position : Nat) {text : Text} (hText : Laid inners text) :
    ∃ others, Laid others (fillFrom mode position (values.map (Markup.wrap .inline)) text) ∧
      others.Perm (repeated
        (copies mode position (values.map (Markup.wrap .inline)) text) values ++ inners) := by
  induction values generalizing inners position text with
  | nil => exact ⟨inners, hText, .refl _⟩
  | cons value rest ih =>
    obtain ⟨hValue, hBoth⟩ := List.forall_mem_cons.mp hSpan
    obtain ⟨hRest, hInners⟩ := List.forall_mem_append.mp hBoth
    obtain ⟨middle, hMiddle, hPerm⟩ := hText.put hInners value mode position
    have hMore : ∀ inner ∈ rest ++ middle, IsSpan (Markup.wrap .inline inner) := by
      refine List.forall_mem_append.mpr ⟨hRest, fun inner hMem => ?_⟩
      rcases List.mem_append.mp (hPerm.mem_iff.mp hMem) with hNew | hOld
      · exact List.eq_of_mem_replicate hNew ▸ hValue
      · exact hInners inner hOld
    obtain ⟨others, hOthers, hLast⟩ := ih hMore (position + 1) hMiddle
    refine ⟨others, hOthers, (hLast.trans (hPerm.append_left _)).trans ?_⟩
    rw [List.map_cons, copies, repeated, repeated, List.zip_cons_cons, List.flatMap_cons,
      List.append_assoc]
    exact List.perm_append_comm_assoc _ _ _

/-- A template that is filled with inline math holds the inner text of each value as often as it is
put. -/
theorem fill {values : List Text} (hSpan : ∀ inner ∈ values, IsSpan (Markup.wrap .inline inner))
    (mode : Substitution) {template : Text} (hTemplate : '\\' ∉ template) :
    ∃ others, Laid others (fill mode (values.map (Markup.wrap .inline)) template) ∧
      others.Perm (repeated
        (copies mode 1 (values.map (Markup.wrap .inline)) template) values) := by
  have hAll : ∀ inner ∈ values ++ [], IsSpan (Markup.wrap .inline inner) := by
    rwa [List.append_nil]
  have hFill := fillFrom hAll mode 1 (of_not_mem hTemplate)
  rwa [List.append_nil] at hFill

theorem mem_of_mem_repeated {counts : List Nat} {values : List Text} {value : Text}
    (h : value ∈ repeated counts values) : value ∈ values := by
  obtain ⟨⟨count, other⟩, hPair, hMem⟩ := List.mem_flatMap.mp h
  rw [List.eq_of_mem_replicate hMem]
  exact (List.of_mem_zip hPair).2

end Laid

/-! ## Localizing -/

theorem localize_slash {rest : Text} (h : Segment.mathSpan? ('\\' :: rest) = none) :
    localize ('\\' :: rest) = '\\' :: localize rest := by
  have hNext : Segment.next '\\' rest = (.raw '\\', rest) := by
    rw [Segment.next, h]
    rfl
  rw [localize, segments_cons, hNext]
  rfl

/-- Empty math is none: its backslashes stay and its parentheses are prose. -/
theorem localize_empty (rest : Text) :
    localize (Markup.wrap .inline [] ++ rest) =
      "\\\\text\x7b(\x7d\\".toList ++ localize (')' :: rest) := by
  have hOpen : Segment.mathSpan? ('\\' :: '(' :: '\\' :: ')' :: rest) = none := rfl
  have hClose : Segment.mathSpan? ('\\' :: ')' :: rest) = none := rfl
  have hProse := @localize_prose ['('] ('\\' :: ')' :: rest) (by decide) (by decide) (.inr ⟨_, rfl⟩)
  change localize ('\\' :: ('(' :: '\\' :: ')' :: rest)) = _
  rw [localize_slash hOpen, show '(' :: '\\' :: ')' :: rest = ['('] ++ '\\' :: ')' :: rest from rfl,
    hProse, localize_slash hClose]
  rfl

/-- What the markup of prose and the inner texts of math have, also behind empty math, the markup of
a text has that consists of them; `weight` is what every inner text adds to it. -/
theorem Laid.localize {P : Nat → Text → Prop} {weight : Text → Nat} (hNil : P 0 [])
    (hAppend : ∀ {n m first second}, P n first → P m second → P (n + m) (first ++ second))
    (hProse : ∀ {run}, '\\' ∉ run → P 0 ("\\text".toList ++ braced run))
    (hEmpty : ∀ {run}, '\\' ∉ run → P (weight [])
      ("\\\\text\x7b(\x7d\\".toList ++ ("\\text".toList ++ braced (')' :: run))))
    {inners : List Text} (hInner : ∀ inner ∈ inners, inner ≠ [] → IsInner inner ∧
      P (weight inner) inner) {text : Text} (h : Laid inners text) :
    P (inners.map weight).sum (localize text) := by
  generalize hLength : text.length = bound
  induction bound using Nat.strongRecOn generalizing inners text with
  | ind bound ih =>
    cases h with
    | nil => exact hNil
    | @prose _ c rest hc hRest =>
      obtain ⟨run, after, rfl, hRun, hAfter, hStart⟩ := hRest.exists_run
      have hMore : '\\' ∉ c :: run := List.not_mem_cons_of_ne_of_not_mem (Ne.symm hc) hRun
      have hMarkup := localize_prose (List.cons_ne_nil c run) hMore hStart
      have hShort : after.length < bound := by
        simp at hLength
        omega
      rw [List.cons_append] at hMarkup
      rw [hMarkup, ← Nat.zero_add (inners.map weight).sum]
      exact hAppend (hProse hMore) (ih after.length hShort hInner hAfter rfl)
    | @span inner inners rest hRest =>
      obtain ⟨hHere, hLater⟩ := List.forall_mem_cons.mp hInner
      have hShort : rest.length + 2 < bound := by
        rw [wrap_inline] at hLength
        simp at hLength
        omega
      rw [List.map_cons, List.sum_cons]
      by_cases hNe : inner = []
      · -- The closing parenthesis of empty math goes into the prose behind it.
        subst hNe
        obtain ⟨run, after, rfl, hRun, hAfter, hStart⟩ := hRest.exists_run
        have hClose : '\\' ∉ ')' :: run := List.not_mem_cons_of_ne_of_not_mem (by decide) hRun
        have hMarkup := localize_prose (List.cons_ne_nil ')' run) hClose hStart
        have hLess : after.length < bound := by
          simp at hShort
          omega
        rw [List.cons_append] at hMarkup
        rw [localize_empty, hMarkup, ← List.append_assoc]
        exact hAppend (hEmpty hRun) (ih after.length hLess hLater hAfter rfl)
      · obtain ⟨hBack, hMath⟩ := hHere hNe
        rw [localize_span hBack]
        exact hAppend hMath (ih rest.length (by omega) hLater hRest rfl)

/-- Prose ends no math and leaves no backslash behind. -/
theorem passes_text {run : Text} (hRun : '\\' ∉ run) (slash after : Bool) :
    Passes ("\\text".toList ++ braced run) slash after := by
  have hOpening : Passes ("\\text".toList ++ ['\x7b']) slash false := by
    cases slash <;> decide
  have hRest : slashThrough false (run ++ ['\x7d']) = some false :=
    slashThrough_of_not_mem (by simp [hRun]) (by simp) (.inl rfl)
  have hText : "\\text".toList ++ braced run =
      ("\\text".toList ++ ['\x7b']) ++ (run ++ ['\x7d']) := rfl
  rw [hText]
  exact hOpening.append (.inl hRest)

theorem keepsOpen_text {run : Text} (hRun : '\\' ∉ run) :
    KeepsOpen ("\\text".toList ++ braced run) :=
  fun slash => passes_text hRun slash slash

/-- The markup of a template that is filled with calm math keeps math open. -/
theorem keepsOpen_localize_fill {inners : List Text} (hInners : ∀ inner ∈ inners, IsCalm inner)
    (mode : Substitution) {template : Text} (hTemplate : '\\' ∉ template) :
    KeepsOpen (localize (fill mode (inners.map (Markup.wrap .inline)) template)) := by
  obtain ⟨others, hLaid, hPerm⟩ := Laid.fill
    (fun inner hInner => isSpan_wrap (hInners inner hInner).placeholder) mode hTemplate
  have hOthers : ∀ inner ∈ others, IsCalm inner := fun inner hMem =>
    hInners inner (Laid.mem_of_mem_repeated (hPerm.mem_iff.mp hMem))
  refine @Laid.localize (fun _ => KeepsOpen) (fun _ => 0) .nil KeepsOpen.append keepsOpen_text
    (fun hRun slash => ?_) others
    (fun inner hMem hNe => ⟨(hOthers inner hMem).isInner hNe, (hOthers inner hMem).opens⟩) _ hLaid
  have hOpening : Passes "\\\\text\x7b(\x7d\\".toList slash true := by
    cases slash <;> decide
  have hClose := List.not_mem_cons_of_ne_of_not_mem (by decide : '\\' ≠ ')') hRun
  exact hOpening.append (passes_text hClose true slash)

/-! ## Characters -/

theorem mem_replaceFrom {word value text : Text} {skip : Nat} {c : Char}
    (h : c ∈ replaceFrom word value skip text) : c ∈ value ∨ c ∈ text := by
  induction text generalizing skip with
  | nil => cases skip <;> cases h
  | cons d rest ih =>
    cases skip with
    | succ skip => exact (ih h).imp_right (List.mem_cons_of_mem d)
    | zero =>
      rw [replaceFrom] at h
      split at h
      · rcases List.mem_append.mp h with hValue | hRest
        · exact .inl hValue
        · exact (ih hRest).imp_right (List.mem_cons_of_mem d)
      · rcases List.mem_cons.mp h with rfl | hRest
        · exact .inr List.mem_cons_self
        · exact (ih hRest).imp_right (List.mem_cons_of_mem d)

theorem mem_fillFrom {mode : Substitution} {values : List Text} {position : Nat} {text : Text}
    {c : Char} (h : c ∈ fillFrom mode position values text) :
    (∃ value ∈ values, c ∈ value) ∨ c ∈ text := by
  induction values generalizing position text with
  | nil => exact .inr h
  | cons value rest ih =>
    rcases ih h with ⟨other, hOther, hMem⟩ | hPut
    · exact .inl ⟨other, List.mem_cons_of_mem _ hOther, hMem⟩
    · have hEither : c ∈ value ∨ c ∈ text := by
        cases mode with
        | first => exact mem_replaceFirst hPut
        | all => exact mem_replaceFrom hPut
      exact hEither.imp_left fun hMem => ⟨value, List.mem_cons_self, hMem⟩

/-- The markup of a text has no other characters than the text and the command for prose. -/
theorem mem_localize {text : Text} {c : Char} (h : c ∈ localize text) :
    c ∈ text ∨ c ∈ "\\text".toList ++ braced [] := by
  obtain ⟨segment, hSegment, hMarkup⟩ := List.mem_flatMap.mp h
  have hSlice : c ∈ segment.slice ∨ c ∈ "\\text".toList ++ braced [] := by
    cases segment with
    | math inner =>
      refine .inl ?_
      simp only [Segment.slice, Segment.markup] at hMarkup ⊢
      simp [hMarkup]
    | prose run =>
      simp only [Segment.markup, Segment.slice, braced, List.mem_append, List.mem_cons] at hMarkup ⊢
      tauto
    | raw d => exact .inl hMarkup
  refine hSlice.imp_left fun hMem => ?_
  rw [← flatMap_slice_segments text]
  exact List.mem_flatMap.mpr ⟨segment, hSegment, hMem⟩

theorem newline_not_mem_localize_fill {mode : Substitution} {values : List Text} {template : Text}
    (hValues : ∀ value ∈ values, '\n' ∉ value) (hTemplate : '\n' ∉ template) :
    '\n' ∉ localize (fill mode values template) := by
  intro h
  rcases mem_localize h with hFill | hCommand
  · rcases mem_fillFrom hFill with ⟨value, hValue, hMem⟩ | hMem
    · exact hValues value hValue hMem
    · exact hTemplate hMem
  · revert hCommand
    decide

end Formulary
