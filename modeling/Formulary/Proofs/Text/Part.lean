import Formulary.Proofs.Text.Placeholder

/-!
# The parts of a template

A template is cut into prose and slots, the occurrences of placeholders that an argument fills.

* `IsFilled` says which occurrences these are, and `IsCut` what the parts of a template are;
* `join` puts neighbouring prose into one piece and keeps the text and the slots
  (`sourceOf_join`, `slotsOf_join`, `hasSlot_join`);
* `IsCut.unique`: the parts of a template are determined.
-/

namespace Formulary.Placeholder

open Text

/-- A piece of a template. -/
inductive Part where
  /-- Prose, which stays as it is. -/
  | prose (run : Text)
  /-- A placeholder that the argument at a position fills. -/
  | slot (position : Nat)
  deriving DecidableEq, Repr

namespace Part

/-- The piece of a template that a part is cut from. -/
def source : Part → Text
  | .prose run => run
  | .slot position => name position

end Part

/-- The text that parts are cut from. -/
def sourceOf (parts : List Part) : Text := parts.flatMap Part.source

@[simp] theorem sourceOf_nil : sourceOf [] = [] := rfl

@[simp] theorem sourceOf_cons (part : Part) (parts : List Part) :
    sourceOf (part :: parts) = part.source ++ sourceOf parts := rfl

/-- The positions of the slots among parts, in order. -/
def slotsOf (parts : List Part) : List Nat :=
  parts.filterMap fun part =>
    match part with
    | .prose _ => none
    | .slot position => some position

@[simp] theorem slotsOf_nil : slotsOf [] = [] := rfl

@[simp] theorem slotsOf_prose (run : Text) (parts : List Part) :
    slotsOf (.prose run :: parts) = slotsOf parts := rfl

@[simp] theorem slotsOf_slot (position : Nat) (parts : List Part) :
    slotsOf (.slot position :: parts) = position :: slotsOf parts := rfl

theorem mem_slotsOf {position : Nat} {parts : List Part} :
    position ∈ slotsOf parts ↔ .slot position ∈ parts := by
  induction parts with
  | nil => simp
  | cons part parts ih => cases part <;> simp [ih]

/-- A slot of a position stands behind a text. -/
def HasSlot (parts : List Part) (before : Text) (position : Nat) : Prop :=
  ∃ first second, parts = first ++ .slot position :: second ∧ sourceOf first = before

/-- An argument fills the occurrence of its placeholder behind a text: any occurrence, or only the
first one. -/
structure IsFilled (mode : Substitution) (count : Nat) (template before : Text)
    (position : Nat) : Prop where
  pos : 1 ≤ position
  le : position ≤ count
  occurs : ∃ after, template = before ++ (name position ++ after)
  first : mode = .first → mentions (name position) before = false

/-- Prose is in one piece: it is not empty and has no prose beside it. -/
structure IsJoined (parts : List Part) : Prop where
  nonempty : ∀ run, .prose run ∈ parts → run ≠ []
  maximal : ∀ first run more second, parts ≠ first ++ .prose run :: .prose more :: second

/-- The parts of a template with so many arguments: slots where an argument fills a placeholder,
and between them prose in one piece. -/
structure IsCut (mode : Substitution) (count : Nat) (template : Text) (parts : List Part) :
    Prop where
  source : sourceOf parts = template
  slots : ∀ before position,
    HasSlot parts before position ↔ IsFilled mode count template before position
  joined : IsJoined parts

theorem IsJoined.tail {part : Part} {parts : List Part} (h : IsJoined (part :: parts)) :
    IsJoined parts where
  nonempty run hMem := h.nonempty run (List.mem_cons_of_mem _ hMem)
  maximal first run more second hEq := h.maximal (part :: first) run more second (by rw [hEq]; rfl)

/-! ## Slots -/

theorem not_hasSlot_nil (before : Text) (position : Nat) : ¬ HasSlot [] before position := by
  rintro ⟨first, second, hParts, -⟩
  cases first <;> cases hParts

theorem hasSlot_cons {part : Part} {parts : List Part} {before : Text} {position : Nat} :
    HasSlot (part :: parts) before position ↔
      (before = [] ∧ part = .slot position) ∨
        ∃ later, before = part.source ++ later ∧ HasSlot parts later position := by
  constructor
  · rintro ⟨first, second, hParts, hBefore⟩
    cases first with
    | nil =>
      obtain ⟨rfl, -⟩ := List.cons.inj hParts
      exact .inl ⟨hBefore.symm, rfl⟩
    | cons head first =>
      obtain ⟨rfl, hTail⟩ := List.cons.inj hParts
      exact .inr ⟨sourceOf first, hBefore.symm, first, second, hTail, rfl⟩
  · rintro (⟨rfl, rfl⟩ | ⟨later, rfl, first, second, rfl, rfl⟩)
    · exact ⟨[], parts, rfl, rfl⟩
    · exact ⟨part :: first, second, rfl, rfl⟩

/-! ## Joining prose -/

/-- Join neighbouring prose into one part. -/
def join : List Part → List Part
  | [] => []
  | .slot position :: rest => .slot position :: join rest
  | .prose run :: rest =>
    match join rest with
    | .prose more :: parts => .prose (run ++ more) :: parts
    | parts => .prose run :: parts

theorem join_prose (run : Text) (rest : List Part) :
    (∃ more parts, join rest = .prose more :: parts ∧
        join (.prose run :: rest) = .prose (run ++ more) :: parts) ∨
      (∀ more parts, join rest ≠ .prose more :: parts) ∧
        join (.prose run :: rest) = .prose run :: join rest := by
  cases hJoin : join rest with
  | nil =>
    refine .inr ⟨fun _ _ h => ?_, by simp only [join, hJoin]⟩
    cases h
  | cons part parts =>
    cases part with
    | prose more => exact .inl ⟨more, parts, rfl, by simp only [join, hJoin]⟩
    | slot position =>
      refine .inr ⟨fun _ _ h => ?_, by simp only [join, hJoin]⟩
      cases h

/-- Joining keeps what the parts are written as, if prose is written character by character. -/
theorem flatMap_join {f : Part → Text}
    (hf : ∀ run more, f (.prose (run ++ more)) = f (.prose run) ++ f (.prose more))
    (parts : List Part) : (join parts).flatMap f = parts.flatMap f := by
  induction parts with
  | nil => rfl
  | cons part rest ih =>
    cases part with
    | slot position => rw [join, List.flatMap_cons, List.flatMap_cons, ih]
    | prose run =>
      rcases join_prose run rest with ⟨more, parts, hRest, hJoin⟩ | ⟨-, hJoin⟩
      · rw [hRest, List.flatMap_cons] at ih
        rw [hJoin, List.flatMap_cons, List.flatMap_cons, hf, ← ih, List.append_assoc]
      · rw [hJoin, List.flatMap_cons, List.flatMap_cons, ih]

theorem sourceOf_join (parts : List Part) : sourceOf (join parts) = sourceOf parts :=
  flatMap_join (fun _ _ => rfl) parts

theorem slotsOf_join (parts : List Part) : slotsOf (join parts) = slotsOf parts := by
  induction parts with
  | nil => rfl
  | cons part rest ih =>
    cases part with
    | slot position => rw [join, slotsOf_slot, slotsOf_slot, ih]
    | prose run =>
      rcases join_prose run rest with ⟨more, parts, hRest, hJoin⟩ | ⟨-, hJoin⟩
      · rw [hRest] at ih
        rw [hJoin]
        exact ih
      · rw [hJoin, slotsOf_prose, slotsOf_prose, ih]

theorem hasSlot_join {parts : List Part} {before : Text} {position : Nat} :
    HasSlot (join parts) before position ↔ HasSlot parts before position := by
  induction parts generalizing before with
  | nil => rfl
  | cons part rest ih =>
    cases part with
    | slot other => simp only [join, hasSlot_cons, ih]
    | prose run =>
      rcases join_prose run rest with ⟨more, parts, hRest, hJoin⟩ | ⟨-, hJoin⟩
      · have hLater : ∀ later, HasSlot rest later position ↔
            ∃ last, later = more ++ last ∧ HasSlot parts last position := by
          intro later
          rw [← ih, hRest, hasSlot_cons]
          simp [Part.source]
        rw [hJoin, hasSlot_cons, hasSlot_cons]
        simp only [reduceCtorEq, and_false, false_or, Part.source, hLater]
        constructor
        · rintro ⟨last, rfl, hSlot⟩
          exact ⟨more ++ last, List.append_assoc .., last, rfl, hSlot⟩
        · rintro ⟨later, rfl, last, rfl, hSlot⟩
          exact ⟨last, (List.append_assoc ..).symm, hSlot⟩
      · simp only [hJoin, hasSlot_cons, ih]

theorem ne_nil_of_mem_join {parts : List Part} (h : ∀ run, .prose run ∈ parts → run ≠ [])
    {run : Text} (hRun : .prose run ∈ join parts) : run ≠ [] := by
  induction parts generalizing run with
  | nil => cases hRun
  | cons part rest ih =>
    have hRest : ∀ run, .prose run ∈ join rest → run ≠ [] :=
      fun _ => ih fun run hMem => h run (List.mem_cons_of_mem _ hMem)
    cases part with
    | slot position =>
      rcases List.mem_cons.mp hRun with hHead | hTail
      · cases hHead
      · exact hRest run hTail
    | prose first =>
      have hFirst : first ≠ [] := h first List.mem_cons_self
      rcases join_prose first rest with ⟨more, parts, hMore, hJoin⟩ | ⟨-, hJoin⟩
      · rw [hJoin] at hRun
        rcases List.mem_cons.mp hRun with hHead | hTail
        · obtain rfl := Part.prose.inj hHead
          exact List.append_ne_nil_of_left_ne_nil hFirst more
        · exact hRest run (hMore ▸ List.mem_cons_of_mem _ hTail)
      · rw [hJoin] at hRun
        rcases List.mem_cons.mp hRun with hHead | hTail
        · obtain rfl := Part.prose.inj hHead
          exact hFirst
        · exact hRest run hTail

/-- No two parts of prose are neighbours behind a join. -/
theorem join_ne (parts first : List Part) (run more : Text) (second : List Part) :
    join parts ≠ first ++ .prose run :: .prose more :: second := by
  induction parts generalizing first run with
  | nil =>
    intro h
    cases first <;> cases h
  | cons part rest ih =>
    intro h
    cases part with
    | slot position =>
      cases first with
      | nil => cases h
      | cons head first => exact ih first run (List.cons.inj h).2
    | prose lead =>
      rcases join_prose lead rest with ⟨tail, parts, hRest, hJoin⟩ | ⟨hNone, hJoin⟩
      · rw [hJoin] at h
        cases first with
        | nil =>
          refine ih [] tail ?_
          rw [hRest, (List.cons.inj h).2]
          rfl
        | cons head first =>
          refine ih (.prose tail :: first) run ?_
          rw [hRest, (List.cons.inj h).2]
          rfl
      · rw [hJoin] at h
        cases first with
        | nil => exact hNone more second (List.cons.inj h).2
        | cons head first => exact ih first run (List.cons.inj h).2

/-! ## Uniqueness -/

theorem hasSlot_source_append {part : Part} {parts : List Part} {before : Text} {position : Nat} :
    HasSlot (part :: parts) (part.source ++ before) position ↔ HasSlot parts before position := by
  rw [hasSlot_cons]
  constructor
  · rintro (⟨hNil, rfl⟩ | ⟨later, hLater, hSlot⟩)
    · exact absurd (List.append_eq_nil_iff.mp hNil).1 (name_ne_nil position)
    · rw [List.append_cancel_left hLater]
      exact hSlot
  · exact fun hSlot => .inr ⟨before, rfl, hSlot⟩

/-- A slot at the front is the first part, since prose is not empty. -/
theorem IsJoined.exists_of_hasSlot_nil {parts : List Part} (h : IsJoined parts) {position : Nat}
    (hSlot : HasSlot parts [] position) : ∃ rest, parts = .slot position :: rest := by
  obtain ⟨first, second, rfl, hFirst⟩ := hSlot
  cases first with
  | nil => exact ⟨second, rfl⟩
  | cons part first =>
    have hNil : part.source = [] := (List.append_eq_nil_iff.mp hFirst).1
    cases part with
    | prose run => exact absurd hNil (h.nonempty run List.mem_cons_self)
    | slot other => exact absurd hNil (name_ne_nil other)

/-- Of two lists of parts of one text with the same slots, prose at the front is at most as long in
the second as in the first. -/
theorem length_le_of_hasSlot {run more : Text} {parts others : List Part}
    (hSource : sourceOf (.prose run :: parts) = sourceOf (.prose more :: others))
    (hSlots : ∀ before position, HasSlot (.prose run :: parts) before position →
      HasSlot (.prose more :: others) before position)
    (hJoined : IsJoined (.prose run :: parts)) : more.length ≤ run.length := by
  cases parts with
  | nil =>
    have hLength := congrArg List.length hSource
    rw [sourceOf_cons, sourceOf_cons, sourceOf_nil, List.append_nil, List.length_append] at hLength
    change run.length = more.length + _ at hLength
    omega
  | cons part parts =>
    cases part with
    | prose next => exact absurd rfl (hJoined.maximal [] run next parts)
    | slot position =>
      have hSlot : HasSlot (.prose run :: .slot position :: parts) run position :=
        ⟨[.prose run], parts, rfl, List.append_nil run⟩
      rcases hasSlot_cons.mp (hSlots run position hSlot) with ⟨-, hPart⟩ | ⟨later, hRun, -⟩
      · cases hPart
      · rw [hRun, List.length_append]
        exact Nat.le_add_right _ _

/-- Parts with joined prose are determined by their text and their slots. -/
theorem IsJoined.eq_of_hasSlot {parts others : List Part} (h : IsJoined parts)
    (hOthers : IsJoined others) (hSource : sourceOf parts = sourceOf others)
    (hSlots : ∀ before position, HasSlot parts before position ↔ HasSlot others before position) :
    parts = others := by
  induction parts generalizing others with
  | nil =>
    cases others with
    | nil => rfl
    | cons part others =>
      have hNil : part.source = [] := (List.append_eq_nil_iff.mp hSource.symm).1
      cases part with
      | prose run => exact absurd hNil (hOthers.nonempty run List.mem_cons_self)
      | slot position => exact absurd hNil (name_ne_nil position)
  | cons part parts ih =>
    obtain ⟨others, rfl⟩ : ∃ rest, others = part :: rest := by
      cases part with
      | slot position =>
        exact hOthers.exists_of_hasSlot_nil ((hSlots [] position).mp ⟨[], parts, rfl, rfl⟩)
      | prose run =>
        have hRun : run ≠ [] := h.nonempty run List.mem_cons_self
        cases others with
        | nil => exact absurd (List.append_eq_nil_iff.mp hSource).1 hRun
        | cons other others =>
          cases other with
          | slot position =>
            have hFront := (hSlots [] position).mpr ⟨[], others, rfl, rfl⟩
            obtain ⟨rest, hRest⟩ := h.exists_of_hasSlot_nil hFront
            cases hRest
          | prose more =>
            have hLe := length_le_of_hasSlot hSource (fun _ _ => (hSlots _ _).mp) h
            have hGe := length_le_of_hasSlot hSource.symm (fun _ _ => (hSlots _ _).mpr) hOthers
            obtain ⟨rfl, -⟩ := List.append_inj hSource (Nat.le_antisymm hGe hLe)
            exact ⟨others, rfl⟩
    congr 1
    refine ih h.tail hOthers.tail (List.append_cancel_left hSource) fun before position => ?_
    have hShifted := hSlots (part.source ++ before) position
    rw [hasSlot_source_append, hasSlot_source_append] at hShifted
    exact hShifted

/-- A template has only one cut. -/
theorem IsCut.unique {mode : Substitution} {count : Nat} {template : Text}
    {parts others : List Part} (h : IsCut mode count template parts)
    (hOthers : IsCut mode count template others) : parts = others :=
  h.joined.eq_of_hasSlot hOthers.joined (h.source.trans hOthers.source.symm)
    fun before position => (h.slots before position).trans (hOthers.slots before position).symm

theorem IsCut.bounds {mode : Substitution} {count : Nat} {template : Text} {parts : List Part}
    (h : IsCut mode count template parts) {position : Nat} (hMem : .slot position ∈ parts) :
    1 ≤ position ∧ position ≤ count := by
  obtain ⟨first, second, hParts⟩ := List.append_of_mem hMem
  have hFilled := (h.slots (sourceOf first) position).mp ⟨first, second, hParts, rfl⟩
  exact ⟨hFilled.pos, hFilled.le⟩

theorem IsCut.mem_template {mode : Substitution} {count : Nat} {template : Text}
    {parts : List Part} (h : IsCut mode count template parts) {run : Text}
    (hMem : .prose run ∈ parts) {c : Char} (hc : c ∈ run) : c ∈ template := by
  rw [← h.source]
  exact List.mem_flatMap.mpr ⟨.prose run, hMem, hc⟩

end Formulary.Placeholder
