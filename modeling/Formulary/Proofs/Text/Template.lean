import Formulary.Proofs.Text.Part

/-!
# Filling a template

The values of a template are put in one after the other, each into a text that already holds the
earlier ones. For up to nine values of the form `\(`…`\)` that do not mention `ARG`, the result is
that of one pass over the template: nothing is found inside a value or across its ends.

* `Reading` is the pass, character by character, with the positions of the slots behind it;
* `Course.put` is one step of the loop, also when the value of an earlier step mentions the name
  that is looked for, and `Reading.course_fill` all of them;
* `fill_eq_of_reading` is the result when no value mentions `ARG`;
* `Reading.hasSlot_iff` says which slots a reading has, and `Reading.isCut` that its characters,
  joined into runs of prose, cut the template;
* `exists_isCut_fill` puts all this together.
-/

namespace Formulary.Placeholder

open Text

/-! ## Reading a template -/

/-- An argument can still fill a placeholder when the slots behind are those of `seen`. -/
def IsFree (mode : Substitution) (count : Nat) (seen : List Nat) (position : Nat) : Prop :=
  1 ≤ position ∧ position ≤ count ∧ (mode = .first → position ∉ seen)

instance (mode : Substitution) (count : Nat) (seen : List Nat) (position : Nat) :
    Decidable (IsFree mode count seen position) :=
  inferInstanceAs (Decidable (1 ≤ position ∧ position ≤ count ∧ (mode = .first → position ∉ seen)))

theorem IsFree.lt_ten {mode : Substitution} {count : Nat} {seen : List Nat} {position : Nat}
    (h : IsFree mode count seen position) (hCount : count < 10) : position < 10 :=
  Nat.lt_of_le_of_lt h.2.1 hCount

theorem isFree_cons {mode : Substitution} {count : Nat} {seen : List Nat} {other position : Nat} :
    IsFree mode count (other :: seen) position ↔
      IsFree mode count seen position ∧ (mode = .first → position ≠ other) := by
  simp only [IsFree, List.mem_cons, not_or]
  constructor
  · rintro ⟨hPos, hLe, hSeen⟩
    exact ⟨⟨hPos, hLe, fun hMode => (hSeen hMode).2⟩, fun hMode => (hSeen hMode).1⟩
  · rintro ⟨⟨hPos, hLe, hSeen⟩, hNe⟩
    exact ⟨hPos, hLe, fun hMode => ⟨hNe hMode, hSeen hMode⟩⟩

/-- The rest of a template is read into slots and single characters of prose. -/
inductive Reading (mode : Substitution) (count : Nat) : List Nat → Text → List Part → Prop
  | nil {seen : List Nat} : Reading mode count seen [] []
  | prose {seen : List Nat} {c : Char} {rest : Text} {parts : List Part}
      (hNone : ∀ position, IsFree mode count seen position →
        (name position).isPrefixOf (c :: rest) = false)
      (hRest : Reading mode count seen rest parts) :
      Reading mode count seen (c :: rest) (.prose [c] :: parts)
  | slot {seen : List Nat} {position : Nat} {rest : Text} {parts : List Part}
      (hFree : IsFree mode count seen position)
      (hRest : Reading mode count (position :: seen) rest parts) :
      Reading mode count seen (name position ++ rest) (.slot position :: parts)

theorem exists_reading (mode : Substitution) (count : Nat) (seen : List Nat) (text : Text) :
    ∃ parts, Reading mode count seen text parts := by
  induction hLength : text.length using Nat.strongRecOn generalizing seen text with
  | ind length ih =>
    cases text with
    | nil => exact ⟨[], .nil⟩
    | cons c rest =>
      by_cases hSome : ∃ position, IsFree mode count seen position ∧
          (name position).isPrefixOf (c :: rest)
      · obtain ⟨position, hFree, hFront⟩ := hSome
        obtain ⟨after, hAfter⟩ := exists_of_isPrefixOf hFront
        have hName := List.length_pos_of_ne_nil (name_ne_nil position)
        have hSum : (c :: rest).length = (name position).length + after.length := by
          rw [hAfter, List.length_append]
        obtain ⟨parts, hParts⟩ := ih after.length (by omega) (position :: seen) after rfl
        rw [hAfter]
        exact ⟨_, .slot hFree hParts⟩
      · have hShorter : rest.length < length := by
          rw [← hLength]
          exact Nat.lt_succ_self _
        obtain ⟨parts, hParts⟩ := ih rest.length hShorter seen rest rfl
        refine ⟨_, .prose (fun position hFree => ?_) hParts⟩
        cases hFront : (name position).isPrefixOf (c :: rest) with
        | false => rfl
        | true => exact absurd ⟨position, hFree, hFront⟩ hSome

namespace Reading

variable {mode : Substitution} {count : Nat} {seen : List Nat} {text : Text} {parts : List Part}

theorem source (h : Reading mode count seen text parts) : sourceOf parts = text := by
  induction h with
  | nil => rfl
  | prose _ _ ih => rw [sourceOf_cons, ih]; rfl
  | slot _ _ ih => rw [sourceOf_cons, ih]; rfl

theorem isFree_of_mem (h : Reading mode count seen text parts) {position : Nat}
    (hMem : .slot position ∈ parts) : IsFree mode count seen position := by
  induction h with
  | nil => cases hMem
  | prose _ _ ih =>
    rcases List.mem_cons.mp hMem with hHead | hTail
    · cases hHead
    · exact ih hTail
  | slot hFree _ ih =>
    rcases List.mem_cons.mp hMem with hHead | hTail
    · cases hHead
      exact hFree
    · exact (isFree_cons.mp (ih hTail)).1

end Reading

/-! ## The loop -/

/-- A part once the arguments up to a position are put in. -/
def Part.stage (value : Nat → Text) (last : Nat) : Part → Text
  | .prose run => run
  | .slot position => if position ≤ last then value position else name position

/-- A part once all arguments are put in. -/
def Part.fill (value : Nat → Text) : Part → Text
  | .prose run => run
  | .slot position => value position

/-- The text of parts once the arguments up to a position are put in. -/
def stageOf (value : Nat → Text) (last : Nat) (parts : List Part) : Text :=
  parts.flatMap (Part.stage value last)

@[simp] theorem stageOf_cons (value : Nat → Text) (last : Nat) (part : Part) (parts : List Part) :
    stageOf value last (part :: parts) = part.stage value last ++ stageOf value last parts := rfl

theorem isPrefixOf_of_append {before first second : Text}
    (h : ∀ word : Text, '\\' ∉ word → word.isPrefixOf first → word.isPrefixOf second)
    {word : Text} (hWord : '\\' ∉ word) (hFront : word.isPrefixOf (before ++ first)) :
    word.isPrefixOf (before ++ second) := by
  induction before generalizing word with
  | nil => exact h word hWord hFront
  | cons c before ih =>
    cases word with
    | nil => rfl
    | cons d word =>
      rw [List.cons_append, List.isPrefixOf_cons_cons, Bool.and_eq_true] at hFront ⊢
      exact ⟨hFront.1, ih (fun hMem => hWord (List.mem_cons_of_mem _ hMem)) hFront.2⟩

theorem eq_nil_of_isPrefixOf_cons {c : Char} {word rest : Text} (hWord : c ∉ word)
    (hFront : word.isPrefixOf (c :: rest)) : word = [] := by
  cases word with
  | nil => rfl
  | cons d word =>
    have hEq : d = c := eq_of_beq (Bool.and_eq_true_iff.mp hFront).1
    exact absurd (hEq ▸ List.mem_cons_self) hWord

/-- What has become of parts when the arguments up to a position are put in: their text at this
stage or, when the course is marked as strayed, a text that differs from it within a value. -/
inductive Course (value : Nat → Text) (last : Nat) : Bool → List Part → Text → Prop
  | nil : Course value last false [] []
  | part {strayed : Bool} (part : Part) {parts : List Part} {text : Text}
      (hRest : Course value last strayed parts text) :
      Course value last strayed (part :: parts) (part.stage value last ++ text)
  | stray {position : Nat} {parts : List Part} {start finish more : Text} (hLe : position ≤ last)
      (hValue : value position = start ++ 'A' :: finish) :
      Course value last true (.slot position :: parts) (start ++ '\\' :: more)

/-- The next argument finds its name in a value that is already there. -/
def Catches (mode : Substitution) (value : Nat → Text) (last : Nat) (slots : List Nat) : Prop :=
  ∃ before position after, slots = before ++ position :: after ∧ position ≤ last ∧
    (mode = .first → last + 1 ∉ before) ∧ mentions (name (last + 1)) (value position)

theorem not_catches_nil (mode : Substitution) (value : Nat → Text) (last : Nat) :
    ¬ Catches mode value last [] := by
  rintro ⟨before, position, after, hSlots, -⟩
  cases before <;> cases hSlots

theorem catches_cons {mode : Substitution} {value : Nat → Text} {last position : Nat}
    {slots : List Nat} :
    Catches mode value last (position :: slots) ↔
      (position ≤ last ∧ mentions (name (last + 1)) (value position)) ∨
        (mode = .first → position ≠ last + 1) ∧ Catches mode value last slots := by
  constructor
  · rintro ⟨before, other, after, hSlots, hLe, hFirst, hMentions⟩
    cases before with
    | nil =>
      obtain ⟨rfl, -⟩ := List.cons.inj hSlots
      exact .inl ⟨hLe, hMentions⟩
    | cons head before =>
      obtain ⟨rfl, rfl⟩ := List.cons.inj hSlots
      refine .inr ⟨fun hMode hEq => hFirst hMode (hEq ▸ List.mem_cons_self), ?_⟩
      exact ⟨before, other, after, rfl, hLe,
        fun hMode hMem => hFirst hMode (List.mem_cons_of_mem _ hMem), hMentions⟩
  · rintro (⟨hLe, hMentions⟩ | ⟨hNe, before, other, after, rfl, hLe, hFirst, hMentions⟩)
    · exact ⟨[], position, slots, rfl, hLe, fun _ => List.not_mem_nil, hMentions⟩
    · refine ⟨position :: before, other, after, rfl, hLe, fun hMode hMem => ?_, hMentions⟩
      rcases List.mem_cons.mp hMem with hHead | hTail
      · exact hNe hMode hHead.symm
      · exact hFirst hMode hTail

namespace Course

variable {value : Nat → Text} {last : Nat} {parts : List Part} {text : Text}

theorem of_stageOf (value : Nat → Text) (last : Nat) (parts : List Part) :
    Course value last false parts (stageOf value last parts) := by
  induction parts with
  | nil => exact .nil
  | cons part parts ih => exact .part part ih

theorem eq_stageOf (h : Course value last false parts text) : text = stageOf value last parts := by
  generalize hStrayed : false = strayed at h
  induction h with
  | nil => rfl
  | part part _ ih => rw [stageOf_cons, ih hStrayed]
  | stray => cases hStrayed

/-- A text that has strayed differs from the text of the parts. -/
theorem ne_stageOf (h : Course value last true parts text) : text ≠ stageOf value last parts := by
  generalize hStrayed : true = strayed at h
  induction h with
  | nil => cases hStrayed
  | part part _ ih =>
    rw [stageOf_cons]
    exact fun hEq => ih hStrayed (List.append_cancel_left hEq)
  | @stray position parts start finish more hLe hValue =>
    intro hEq
    rw [stageOf_cons, Part.stage, if_pos hLe, hValue, List.append_assoc] at hEq
    have hHead := (List.cons.inj (List.append_cancel_left hEq)).1
    revert hHead
    decide

/-- No word arises at the seam before a value. -/
theorem isPrefixOf_source {strayed : Bool} (h : Course value last strayed parts text)
    (hWrapped : ∀ position, .slot position ∈ parts → IsWrapped (value position))
    {word : Text} (hWord : '\\' ∉ word) (hFront : word.isPrefixOf text) :
    word.isPrefixOf (sourceOf parts) := by
  induction h generalizing word with
  | nil => exact hFront
  | part part hRest ih =>
    have hTail := fun (word : Text) => @ih
      (fun position hMem => hWrapped position (List.mem_cons_of_mem _ hMem)) word
    rw [sourceOf_cons]
    cases part with
    | prose run => exact isPrefixOf_of_append hTail hWord hFront
    | slot position =>
      rw [Part.stage] at hFront
      split at hFront
      · obtain ⟨rest, hRest⟩ := (hWrapped position List.mem_cons_self).exists_cons
        rw [hRest] at hFront
        rw [eq_nil_of_isPrefixOf_cons hWord hFront]
        rfl
      · exact isPrefixOf_of_append hTail hWord hFront
  | @stray position parts start finish more hLe hValue =>
    obtain ⟨rest, hRest⟩ := (hWrapped position List.mem_cons_self).exists_cons
    cases start with
    | nil =>
      rw [eq_nil_of_isPrefixOf_cons hWord hFront]
      rfl
    | cons c start =>
      rw [hRest] at hValue
      obtain ⟨rfl, -⟩ := List.cons.inj hValue
      rw [eq_nil_of_isPrefixOf_cons hWord hFront]
      rfl

/-- Where a position has no slot, its argument changes nothing. -/
theorem succ {strayed : Bool} (h : Course value last strayed parts text)
    (hNone : .slot (last + 1) ∉ parts) : Course value (last + 1) strayed parts text := by
  induction h with
  | nil => exact .nil
  | @part strayed part parts text hRest ih =>
    have hPart : part.stage value last = part.stage value (last + 1) := by
      cases part with
      | prose run => rfl
      | slot position =>
        have hNe : position ≠ last + 1 := fun hEq => hNone (hEq ▸ List.mem_cons_self)
        have hLe : position ≤ last ↔ position ≤ last + 1 := by omega
        simp only [Part.stage, hLe]
    rw [hPart]
    exact .part part (ih fun hMem => hNone (List.mem_cons_of_mem _ hMem))
  | stray hLe hValue => exact .stray (hLe.trans (Nat.le_succ _)) hValue

/-- A value in which the next argument finds its name strays. -/
theorem of_mentions {position : Nat} (hLe : position ≤ last)
    (hNext : IsWrapped (value (last + 1))) {before : Text} (mode : Substitution)
    (hBefore : ∃ after, value position = before ++ after)
    (hMentions : mentions (name (last + 1)) before) (rest : Text) (parts : List Part) :
    Course value (last + 1) true (.slot position :: parts)
      (put mode (last + 1) (value (last + 1)) (before ++ rest)) := by
  obtain ⟨after, hAfter⟩ := hBefore
  obtain ⟨start, finish, tail, hText, hPut⟩ :=
    exists_put_of_mentions hMentions mode (value (last + 1)) rest
  obtain ⟨more, hMore⟩ := hNext.exists_cons
  have hValue : value position =
      start ++ 'A' :: ("RG".toList ++ ofNat (last + 1) ++ (finish ++ after)) := by
    rw [hAfter, hText, List.append_assoc, List.append_assoc]
    rfl
  rw [hPut, hMore]
  exact .stray (hLe.trans (Nat.le_succ _)) hValue

/-- No name that is still free begins at a character of prose, whatever stands behind it now. -/
theorem isPrefixOf_prose {mode : Substitution} {count : Nat}
    (hWrapped : ∀ position, 1 ≤ position → position ≤ count → IsWrapped (value position))
    {seen : List Nat} {c : Char} {rest : Text}
    (hNone : ∀ position, IsFree mode count seen position →
      (name position).isPrefixOf (c :: rest) = false)
    (hRest : Reading mode count seen rest parts) {strayed : Bool}
    (h : Course value last strayed parts text) {position : Nat}
    (hFree : IsFree mode count seen position) : (name position).isPrefixOf (c :: text) = false := by
  by_contra hSome
  rw [Bool.not_eq_false] at hSome
  have hSource : (name position).isPrefixOf ([c] ++ sourceOf parts) := by
    refine isPrefixOf_of_append (fun _ => h.isPrefixOf_source fun other hMem => ?_)
      (slash_not_mem_name position) hSome
    have hBounds := hRest.isFree_of_mem hMem
    exact hWrapped other hBounds.1 hBounds.2.1
  rw [hRest.source, List.singleton_append, hNone position hFree] at hSource
  cases hSource

/-- A value that is already there is passed over, or it catches the next one. -/
theorem put_filled {position : Nat} (hLe : position ≤ last) (hHere : IsWrapped (value position))
    (hNext : IsWrapped (value (last + 1))) (mode : Substitution) {strayed : Bool}
    (hRest : Course value (last + 1) strayed parts (put mode (last + 1) (value (last + 1)) text)) :
    ∃ strayed', Course value (last + 1) strayed' (.slot position :: parts)
        (put mode (last + 1) (value (last + 1)) (value position ++ text)) ∧
      (strayed' = true ↔ mentions (name (last + 1)) (value position) = true ∨ strayed = true) := by
  by_cases hMentions : mentions (name (last + 1)) (value position)
  · exact ⟨true, of_mentions hLe hNext mode ⟨[], (List.append_nil _).symm⟩ hMentions text parts,
      by simp [hMentions]⟩
  · rw [Bool.not_eq_true] at hMentions
    have hPart := Course.part (.slot position) hRest
    rw [Part.stage, if_pos (hLe.trans (Nat.le_succ _))] at hPart
    rw [put_wrapped hHere hMentions]
    exact ⟨strayed, hPart, by simp [hMentions]⟩

/-- A course that has strayed within a value stays so. -/
theorem put_strayed {position : Nat} (hLe : position ≤ last) (hNext : IsWrapped (value (last + 1)))
    (mode : Substitution) {start finish : Text} (hValue : value position = start ++ 'A' :: finish)
    (more : Text) (parts : List Part) :
    Course value (last + 1) true (.slot position :: parts)
      (put mode (last + 1) (value (last + 1)) (start ++ '\\' :: more)) := by
  by_cases hMentions : mentions (name (last + 1)) start
  · exact of_mentions hLe hNext mode ⟨_, hValue⟩ hMentions _ _
  · rw [Bool.not_eq_true] at hMentions
    rw [put_append_cons (slash_not_mem_name _) hMentions]
    exact .stray (hLe.trans (Nat.le_succ _)) hValue

/-- One step of the loop: the next value goes into the slots of its position, and the course strays
where a value catches it. -/
theorem put {mode : Substitution} {count : Nat} (hCount : count < 10) (hLast : last < count)
    (hWrapped : ∀ position, 1 ≤ position → position ≤ count → IsWrapped (value position))
    {seen : List Nat} {source : Text} (hReading : Reading mode count seen source parts)
    (hFree : IsFree mode count seen (last + 1)) {strayed : Bool}
    (h : Course value last strayed parts text) :
    ∃ strayed', Course value (last + 1) strayed' parts
        (put mode (last + 1) (value (last + 1)) text) ∧
      (strayed' = true ↔ strayed = true ∨ Catches mode value last (slotsOf parts)) := by
  have hNextWrapped : IsWrapped (value (last + 1)) := hWrapped _ hFree.1 hFree.2.1
  induction hReading generalizing strayed text with
  | nil =>
    cases h
    refine ⟨false, ?_, by simp [not_catches_nil]⟩
    cases mode <;> exact .nil
  | @prose seen c rest parts hNone hRest ih =>
    cases h with
    | @part _ _ _ text hTail =>
      obtain ⟨strayed', hStep, hIff⟩ := ih hFree hTail
      refine ⟨strayed', ?_, hIff⟩
      change Course value (last + 1) strayed' _ (Placeholder.put _ _ _ (c :: text))
      rw [put_cons (hTail.isPrefixOf_prose hWrapped hNone hRest hFree)]
      exact .part (.prose [c]) hStep
  | @slot seen position rest parts hFreeHere hRest ih =>
    rw [slotsOf_slot, catches_cons]
    cases h with
    | @part _ _ _ text hTail =>
      by_cases hEq : position = last + 1
      · subst hEq
        have hStage : Part.stage value (last + 1) (.slot (last + 1)) = value (last + 1) :=
          if_pos (Nat.le_refl _)
        have hNot : ¬ last + 1 ≤ last := by omega
        rw [Part.stage, if_neg hNot, put_name]
        nth_rewrite 1 [← hStage]
        cases mode with
        | first =>
          -- The position has been seen now, so it has no slot among the rest.
          have hNone : .slot (last + 1) ∉ parts := fun hMem =>
            (hRest.isFree_of_mem hMem).2.2 rfl List.mem_cons_self
          exact ⟨strayed, .part _ (hTail.succ hNone), by simp [hNot]⟩
        | all =>
          obtain ⟨strayed', hStep, hIff⟩ := ih ⟨hFree.1, hFree.2.1, by rintro ⟨⟩⟩ hTail
          exact ⟨strayed', .part _ hStep, by simp [hIff, hNot]⟩
      · have hFreeRest : IsFree mode count (position :: seen) (last + 1) :=
          isFree_cons.mpr ⟨hFree, fun _ => Ne.symm hEq⟩
        obtain ⟨strayed', hStep, hIff⟩ := ih hFreeRest hTail
        by_cases hLe : position ≤ last
        · have hHere : IsWrapped (value position) := hWrapped _ hFreeHere.1 hFreeHere.2.1
          obtain ⟨strayed'', hFilled, hOr⟩ := put_filled hLe hHere hNextWrapped mode hStep
          rw [Part.stage, if_pos hLe]
          exact ⟨strayed'', hFilled, by simp [hOr, hIff, hLe, hEq, or_left_comm]⟩
        · have hPart := Course.part (.slot position) hStep
          rw [Part.stage, if_neg (by omega)] at hPart
          rw [Part.stage, if_neg hLe,
            put_other (by omega) (hFreeHere.lt_ten hCount) (Ne.symm hEq)]
          exact ⟨strayed', hPart, by simp [hIff, hLe, hEq]⟩
    | @stray _ _ start finish more hLe hValue =>
      exact ⟨true, put_strayed hLe hNextWrapped mode hValue more parts, by simp⟩

end Course

/-- The value of a position among a list of values. -/
def valueAt (values : List Text) (position : Nat) : Text := (values[position - 1]?).getD []

theorem valueAt_mem {values : List Text} {position : Nat} (hPos : 1 ≤ position)
    (hLe : position ≤ values.length) : valueAt values position ∈ values := by
  have hIndex : position - 1 < values.length := by omega
  rw [valueAt, List.getElem?_eq_getElem hIndex, Option.getD_some]
  exact List.getElem_mem hIndex

theorem valueAt_map (f : Text → Text) {values : List Text} {position : Nat} (hPos : 1 ≤ position)
    (hLe : position ≤ values.length) :
    valueAt (values.map f) position = f (valueAt values position) := by
  have hIndex : position - 1 < values.length := by omega
  rw [valueAt, valueAt, List.getElem?_map, List.getElem?_eq_getElem hIndex]
  rfl

theorem Part.stage_zero {value : Nat → Text} {part : Part}
    (h : ∀ position, part = .slot position → 1 ≤ position) : part.stage value 0 = part.source := by
  cases part with
  | prose run => rfl
  | slot position =>
    have hPos := h position rfl
    rw [Part.stage, Part.source, if_neg (by omega)]

theorem Part.stage_last {value : Nat → Text} {last : Nat} {part : Part}
    (h : ∀ position, part = .slot position → position ≤ last) :
    part.stage value last = part.fill value := by
  cases part with
  | prose run => rfl
  | slot position => rw [Part.stage, Part.fill, if_pos (h position rfl)]

/-- Before the loop, the text of the parts is what they are cut from. -/
theorem Reading.stageOf_zero {mode : Substitution} {count : Nat} {seen : List Nat} {text : Text}
    {parts : List Part} (h : Reading mode count seen text parts) (value : Nat → Text) :
    stageOf value 0 parts = text := by
  rw [← h.source]
  exact List.flatMap_congr fun _ hMem => Part.stage_zero fun _ hPart =>
    (h.isFree_of_mem (hPart ▸ hMem)).1

/-- Behind the loop, every slot is filled. -/
theorem Reading.stageOf_count {mode : Substitution} {count : Nat} {seen : List Nat} {text : Text}
    {parts : List Part} (h : Reading mode count seen text parts) (value : Nat → Text) :
    stageOf value count parts = parts.flatMap (Part.fill value) :=
  List.flatMap_congr fun _ hMem => Part.stage_last fun _ hPart =>
    (h.isFree_of_mem (hPart ▸ hMem)).2.1

/-- What each step of the loop keeps holds of the filled template. -/
theorem fill_induction {mode : Substitution} {values : List Text} {template : Text}
    {motive : Nat → Text → Prop} (hStart : motive 0 template)
    (hStep : ∀ last < values.length, ∀ text, motive last text →
      motive (last + 1) (put mode (last + 1) (valueAt values (last + 1)) text)) :
    motive values.length (fill mode values template) := by
  -- The induction is on the values that are still to be put in.
  have hFrom : ∀ rest done text, values = done ++ rest → motive done.length text →
      motive values.length (fillFrom mode (done.length + 1) rest text) := by
    intro rest
    induction rest with
    | nil =>
      intro done text hValues hText
      rw [hValues, List.append_nil]
      exact hText
    | cons value rest ih =>
      intro done text hValues hText
      have hNext : valueAt values (done.length + 1) = value := by
        rw [hValues, valueAt]
        simp
      have hLast : done.length < values.length := by
        rw [hValues, List.length_append, List.length_cons]
        omega
      have hPut := hStep done.length hLast text hText
      rw [hNext] at hPut
      have hRest := ih (done ++ [value]) (put mode (done.length + 1) value text)
        (by rw [hValues, List.append_assoc, List.singleton_append])
      rw [List.length_append, List.length_singleton] at hRest
      exact hRest hPut
  exact hFrom values [] template rfl hStart

/-- All steps of the loop: the text of the filled slots, unless some step catches a value. -/
theorem Reading.course_fill {mode : Substitution} {values : List Text}
    (hCount : values.length < 10) (hValues : ∀ value ∈ values, IsWrapped value) {template : Text}
    {parts : List Part} (h : Reading mode values.length [] template parts) :
    ∃ strayed, Course (valueAt values) values.length strayed parts (fill mode values template) ∧
      (strayed = true ↔
        ∃ last < values.length, Catches mode (valueAt values) last (slotsOf parts)) := by
  have hWrapped : ∀ position, 1 ≤ position → position ≤ values.length →
      IsWrapped (valueAt values position) := fun position hPos hLe =>
    hValues _ (valueAt_mem hPos hLe)
  refine fill_induction (motive := fun last text =>
    ∃ strayed, Course (valueAt values) last strayed parts text ∧ (strayed = true ↔
      ∃ step < last, Catches mode (valueAt values) step (slotsOf parts))) ?_ ?_
  · refine ⟨false, ?_, by simp⟩
    rw [← h.stageOf_zero (valueAt values)]
    exact .of_stageOf _ _ _
  · rintro last hLast text ⟨strayed, hCourse, hBefore⟩
    obtain ⟨strayed', hStep, hIff⟩ := hCourse.put hCount hLast hWrapped h
      ⟨by omega, hLast, fun _ => List.not_mem_nil⟩
    refine ⟨strayed', hStep, hIff.trans ?_⟩
    rw [hBefore]
    simp only [Nat.lt_succ_iff_lt_or_eq, or_and_right, exists_or, exists_eq_left]

/-- Values without `ARG` are never caught. -/
theorem not_catches_of_isSpan {mode : Substitution} {values : List Text}
    (hValues : ∀ value ∈ values, IsSpan value) {last : Nat} {slots : List Nat}
    (hSlots : ∀ position ∈ slots, 1 ≤ position ∧ position ≤ values.length) :
    ¬ Catches mode (valueAt values) last slots := by
  rintro ⟨before, position, after, rfl, -, -, hMentions⟩
  obtain ⟨hPos, hLe⟩ := hSlots position (List.mem_append_right _ List.mem_cons_self)
  rw [(hValues _ (valueAt_mem hPos hLe)).mentions_name] at hMentions
  cases hMentions

/-- Filling a template puts the values into the slots of its reading. -/
theorem fill_eq_of_reading {mode : Substitution} {values : List Text}
    (hCount : values.length < 10) (hValues : ∀ value ∈ values, IsSpan value) {template : Text}
    {parts : List Part} (h : Reading mode values.length [] template parts) :
    fill mode values template = parts.flatMap (Part.fill (valueAt values)) := by
  obtain ⟨strayed, hCourse, hIff⟩ :=
    h.course_fill hCount fun value hMem => (hValues value hMem).isWrapped
  cases strayed with
  | false => rw [hCourse.eq_stageOf, h.stageOf_count]
  | true =>
    obtain ⟨last, -, hCatches⟩ := hIff.mp rfl
    refine absurd hCatches (not_catches_of_isSpan hValues fun position hMem => ?_)
    have hFree := h.isFree_of_mem (mem_slotsOf.mp hMem)
    exact ⟨hFree.1, hFree.2.1⟩

/-! ## The slots of a reading -/

/-- An occurrence in the rest of a template is still to be filled. -/
def IsPending (mode : Substitution) (count : Nat) (seen : List Nat) (text before : Text)
    (position : Nat) : Prop :=
  IsFree mode count seen position ∧ (∃ after, text = before ++ (name position ++ after)) ∧
    (mode = .first → mentions (name position) before = false)

theorem not_isPending_nil {mode : Substitution} {count : Nat} {seen : List Nat} (before : Text)
    (position : Nat) : ¬ IsPending mode count seen [] before position := by
  rintro ⟨-, ⟨after, hAfter⟩, -⟩
  have hNil := (List.append_eq_nil_iff.mp hAfter.symm).2
  exact name_ne_nil position (List.append_eq_nil_iff.mp hNil).1

/-- A character of prose stands before every occurrence that is still to be filled. -/
theorem isPending_prose {mode : Substitution} {count : Nat} {seen : List Nat} {c : Char}
    {rest before : Text} {position : Nat}
    (hNone : ∀ position, IsFree mode count seen position →
      (name position).isPrefixOf (c :: rest) = false) :
    IsPending mode count seen (c :: rest) before position ↔
      ∃ later, before = c :: later ∧ IsPending mode count seen rest later position := by
  constructor
  · rintro ⟨hFree, ⟨after, hAfter⟩, hFirst⟩
    cases before with
    | nil =>
      have hFront := hNone position hFree
      rw [hAfter, List.nil_append, isPrefixOf_append_self] at hFront
      cases hFront
    | cons d later =>
      obtain ⟨rfl, hRest⟩ := List.cons.inj hAfter
      refine ⟨later, rfl, hFree, ⟨after, hRest⟩, fun hMode => ?_⟩
      exact (Bool.or_eq_false_iff.mp (hFirst hMode)).2
  · rintro ⟨later, rfl, hFree, ⟨after, rfl⟩, hFirst⟩
    refine ⟨hFree, ⟨after, rfl⟩, fun hMode => Bool.or_eq_false_iff.mpr ⟨?_, hFirst hMode⟩⟩
    have hFront := hNone position hFree
    by_contra hSome
    rw [Bool.not_eq_false] at hSome
    obtain ⟨more, hMore⟩ := exists_of_isPrefixOf hSome
    have hText : c :: (later ++ (name position ++ after)) =
        name position ++ (more ++ (name position ++ after)) := by
      rw [← List.append_assoc (name position) more, ← hMore]
      rfl
    rw [hText, isPrefixOf_append_self] at hFront
    cases hFront

/-- An occurrence that is still to be filled is the slot at the front or lies behind it. -/
theorem isPending_slot {mode : Substitution} {count : Nat} (hCount : count < 10) {seen : List Nat}
    {other : Nat} {rest before : Text} {position : Nat} (hFree : IsFree mode count seen other) :
    IsPending mode count seen (name other ++ rest) before position ↔
      (before = [] ∧ other = position) ∨ ∃ later, before = name other ++ later ∧
        IsPending mode count (other :: seen) rest later position := by
  have hOther : other < 10 := hFree.lt_ten hCount
  constructor
  · rintro ⟨hPosition, ⟨after, hAfter⟩, hFirst⟩
    have hLt : position < 10 := hPosition.lt_ten hCount
    by_cases hNil : before = []
    · subst hNil
      have hFront := isPrefixOf_name hLt hOther rest
      rw [hAfter, List.nil_append, isPrefixOf_append_self] at hFront
      exact .inl ⟨rfl, (of_decide_eq_true hFront.symm).symm⟩
    · obtain ⟨later, rfl⟩ := exists_of_name_append hLt hOther hAfter hNil
      have hNone : mode = .first → position ≠ other ∧ mentions (name position) later = false := by
        intro hMode
        have hBoth := hFirst hMode
        rw [mentions_name hLt hOther, Bool.or_eq_false_iff] at hBoth
        exact ⟨of_decide_eq_false hBoth.1, hBoth.2⟩
      rw [List.append_assoc] at hAfter
      exact .inr ⟨later, rfl, isFree_cons.mpr ⟨hPosition, fun hMode => (hNone hMode).1⟩,
        ⟨after, List.append_cancel_left hAfter⟩, fun hMode => (hNone hMode).2⟩
  · rintro (⟨rfl, rfl⟩ | ⟨later, rfl, hPosition, ⟨after, rfl⟩, hFirst⟩)
    · refine ⟨hFree, ⟨rest, rfl⟩, fun _ => ?_⟩
      rw [mentions, List.isEmpty_eq_false_iff.mpr (name_ne_nil _)]
    · obtain ⟨hSeen, hNe⟩ := isFree_cons.mp hPosition
      refine ⟨hSeen, ⟨after, (List.append_assoc ..).symm⟩, fun hMode => ?_⟩
      rw [mentions_name (hSeen.lt_ten hCount) hOther, decide_eq_false (hNe hMode), hFirst hMode]
      rfl

/-- The slots of a reading are the occurrences that are still to be filled. -/
theorem Reading.hasSlot_iff {mode : Substitution} {count : Nat} (hCount : count < 10)
    {seen : List Nat} {text : Text} {parts : List Part} (h : Reading mode count seen text parts)
    (before : Text) (position : Nat) :
    HasSlot parts before position ↔ IsPending mode count seen text before position := by
  induction h generalizing before with
  | nil => exact iff_of_false (not_hasSlot_nil before position) (not_isPending_nil before position)
  | prose hNone _ ih =>
    rw [hasSlot_cons, isPending_prose hNone]
    simp only [reduceCtorEq, and_false, false_or, Part.source, List.singleton_append, ih]
  | slot hFree _ ih =>
    rw [hasSlot_cons, isPending_slot hCount hFree]
    simp only [Part.slot.injEq, Part.source, ih]

/-- For a whole template these are the occurrences that an argument fills. -/
theorem isPending_iff_isFilled {mode : Substitution} {count : Nat} {template before : Text}
    {position : Nat} : IsPending mode count [] template before position ↔
      IsFilled mode count template before position := by
  constructor
  · rintro ⟨⟨hPos, hLe, -⟩, hOccurs, hFirst⟩
    exact ⟨hPos, hLe, hOccurs, hFirst⟩
  · rintro ⟨hPos, hLe, hOccurs, hFirst⟩
    exact ⟨⟨hPos, hLe, fun _ => List.not_mem_nil⟩, hOccurs, hFirst⟩

theorem Reading.prose_ne_nil {mode : Substitution} {count : Nat} {seen : List Nat} {text : Text}
    {parts : List Part} (h : Reading mode count seen text parts) {run : Text}
    (hMem : .prose run ∈ parts) : run ≠ [] := by
  induction h with
  | nil => cases hMem
  | prose _ _ ih =>
    rcases List.mem_cons.mp hMem with hHead | hTail
    · rw [Part.prose.inj hHead]
      exact List.cons_ne_nil _ _
    · exact ih hTail
  | slot _ _ ih =>
    rcases List.mem_cons.mp hMem with hHead | hTail
    · cases hHead
    · exact ih hTail

theorem Reading.isCut {mode : Substitution} {count : Nat} (hCount : count < 10) {template : Text}
    {parts : List Part} (h : Reading mode count [] template parts) :
    IsCut mode count template (join parts) where
  source := (sourceOf_join parts).trans h.source
  slots before position := by
    rw [hasSlot_join, h.hasSlot_iff hCount, isPending_iff_isFilled]
  joined := ⟨fun _ => ne_nil_of_mem_join fun _ => h.prose_ne_nil, join_ne parts⟩

/-- Filling a template is cutting it at its slots and putting the values there. -/
theorem exists_isCut_fill (mode : Substitution) {values : List Text}
    (hCount : values.length < 10) (hValues : ∀ value ∈ values, IsSpan value) (template : Text) :
    ∃ parts, IsCut mode values.length template parts ∧
      fill mode values template = parts.flatMap (Part.fill (valueAt values)) := by
  obtain ⟨parts, hParts⟩ := exists_reading mode values.length [] template
  refine ⟨join parts, hParts.isCut hCount, ?_⟩
  rw [fill_eq_of_reading hCount hValues hParts]
  exact (flatMap_join (fun _ _ => rfl) parts).symm

end Formulary.Placeholder
