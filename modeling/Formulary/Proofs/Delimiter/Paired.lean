import Formulary.Proofs.Delimiter.Nested
import Formulary.Proofs.Markup.Fenced

/-!
# Sized pipes

Scoped pipes of a group are sized as `fences` pairs them, but once they are written their depths
cannot be told any more. They need not be: where written pipes are nested, a pipe that closes stands
at the depth of the one it closes (`exists_nest_fences`). So sized markup is nested exactly when
every pair of pipes in a sized group encloses a nested part (`isNested_brackets_size_scoped_iff`),
and in particular when its pipes are fenced (`isNested_brackets_size_of_fenced`).
-/

namespace Formulary

/-- The bracket of finished markup that a bracket of a group becomes. -/
def Fence.written : Fence → Written
  | .plain .brace => .brace
  | .plain .paren => .sized '('
  | .pipe _ => .sized '|'

namespace Delimiter

/-- Every bracket of a group is written. -/
def writtenName (fence : Fence) : Option Written := some fence.written

/-- Scoped sides are those of the pairs. -/
theorem sizeSigns_scopedSides (all passed : List Nat) (depth : Nat) (word : List (Sign Bracket)) :
    sizeSigns (scopedSides all passed (pipeLevels depth word)) word =
      relabel writtenName (fences all passed depth word) := by
  induction word generalizing passed depth with
  | nil => rfl
  | cons sign rest ih =>
    have hRest := ih (sign.levels depth ++ passed) (sign.depthBehind depth)
    rw [fences, relabel_cons, ← hRest]
    cases sign with
    | opening bracket => cases bracket <;> rfl
    | closing bracket => cases bracket <;> rfl
    | command => rfl
    | pipe =>
      simp only [pipeLevels, Sign.levels, List.singleton_append, scopedSides, sizeSigns,
        List.head?_cons, Option.getD_some, List.tail_cons, Sign.fenced]
      split
      · split <;> rfl
      · rfl

/-- Every pipe on the stack has the depth at which it stands. -/
def Aligned : List Fence → Prop
  | [] => True
  | .plain _ :: rest => Aligned rest
  | .pipe depth :: rest => depth = rest.count (.plain .paren) ∧ Aligned rest

theorem eq_plain_of_written {fence : Fence} {bracket : Bracket}
    (h : fence.written = (Fence.plain bracket).written) : fence = .plain bracket := by
  match fence, bracket with
  | .plain .brace, .brace => rfl
  | .plain .paren, .paren => rfl
  | .plain .brace, .paren => cases h
  | .plain .paren, .brace => cases h
  | .pipe _, .brace => cases h
  | .pipe _, .paren => exact absurd (Written.sized.inj h) (by decide)

theorem exists_of_written_eq_pipe {fence : Fence} (h : fence.written = .sized '|') :
    ∃ depth, fence = .pipe depth := by
  match fence with
  | .plain .brace => cases h
  | .plain .paren => exact absurd (Written.sized.inj h) (by decide)
  | .pipe depth => exact ⟨depth, rfl⟩

section Aligned

variable {all passed : List Nat} {stack : List Fence}

/-- A sign that can be read when it is written can be read before. -/
theorem exists_step_fenced {sign : Sign Bracket} {behind : List Written} (hAligned : Aligned stack)
    (h : nest (stack.map Fence.written) (relabel writtenName
      [sign.fenced all passed (stack.count (.plain .paren))]) = some behind) :
    ∃ next, step stack (sign.fenced all passed (stack.count (.plain .paren))) = some next ∧
      next.map Fence.written = behind ∧ Aligned next ∧
      next.count (.plain .paren) = sign.depthBehind (stack.count (.plain .paren)) := by
  have hClosing : ∀ {fence : Fence}, nest (stack.map Fence.written)
      (relabel writtenName [.closing fence]) = some behind →
      ∃ top rest, stack = top :: rest ∧ top.written = fence.written ∧
        rest.map Fence.written = behind := by
    intro fence hClose
    obtain ⟨below, hStep, hNil⟩ := nest_cons_eq_some hClose
    cases hNil
    obtain ⟨top, rest, rfl, hTop, hRest⟩ := List.map_eq_cons_iff.mp (step_closing_eq_some hStep)
    exact ⟨top, rest, rfl, hTop, hRest⟩
  cases sign with
  | opening bracket =>
    cases h
    refine ⟨.plain bracket :: stack, rfl, rfl, hAligned, ?_⟩
    cases bracket <;> simp [Sign.depthBehind]
  | closing bracket =>
    obtain ⟨top, rest, rfl, hTop, rfl⟩ := hClosing h
    obtain rfl := eq_plain_of_written hTop
    refine ⟨rest, step_closing _ _, rfl, hAligned, ?_⟩
    cases bracket <;> simp [Sign.depthBehind]
  | command =>
    cases h
    exact ⟨stack, rfl, rfl, hAligned, rfl⟩
  | pipe =>
    generalize hDepth : stack.count (.plain .paren) = depth at h ⊢
    rcases fenced_pipe all passed depth with hSign | hSign | hSign
    · rw [hSign] at h ⊢
      cases h
      exact ⟨.pipe depth :: stack, rfl, rfl, ⟨hDepth.symm, hAligned⟩,
        by simpa [Sign.depthBehind] using hDepth⟩
    · rw [hSign] at h ⊢
      obtain ⟨top, rest, rfl, hTop, rfl⟩ := hClosing h
      obtain ⟨other, rfl⟩ := exists_of_written_eq_pipe hTop
      obtain ⟨hOther, hRest⟩ := hAligned
      have hSame : rest.count (.plain .paren) = depth := by simpa using hDepth
      rw [← hSame, hOther]
      exact ⟨rest, step_closing _ _, rfl, hRest, rfl⟩
    · rw [hSign] at h ⊢
      cases h
      exact ⟨stack, rfl, rfl, hAligned, hDepth⟩

/-- Written pipes that are nested tell apart the depths of the pipes. -/
theorem exists_nest_fences {word : List (Sign Bracket)} {behind : List Written}
    (hAligned : Aligned stack)
    (h : nest (stack.map Fence.written)
      (relabel writtenName (fences all passed (stack.count (.plain .paren)) word)) = some behind) :
    ∃ next, nest stack (fences all passed (stack.count (.plain .paren)) word) = some next ∧
      next.map Fence.written = behind := by
  induction word generalizing stack passed with
  | nil =>
    cases h
    exact ⟨stack, rfl, rfl⟩
  | cons sign rest ih =>
    rw [fences, relabel_cons] at h
    obtain ⟨between, hSign, hRest⟩ := exists_of_nest_append h
    obtain ⟨middle, hStep, rfl, hMiddle, hDepth⟩ := exists_step_fenced hAligned hSign
    rw [← hDepth] at hRest
    obtain ⟨next, hNext, rfl⟩ := ih hMiddle hRest
    refine ⟨next, ?_, rfl⟩
    rw [fences, nest, hStep, Option.bind_some, ← hDepth]
    exact hNext

end Aligned

theorem isNested_relabel_fences_iff (all : List Nat) (word : List (Sign Bracket)) :
    IsNested (relabel writtenName (fences all [] 0 word)) ↔ IsNested (fences all [] 0 word) := by
  constructor
  · intro h
    obtain ⟨next, hNext, hNil⟩ := @exists_nest_fences all [] [] word [] trivial h
    obtain rfl := List.map_eq_nil_iff.mp hNil
    exact hNext
  · exact fun h => h.relabel writtenName

/-! ## Groups -/

theorem pipeDepths_eq_pipeLevels {marked : List Mark}
    (hPlain : ∀ mark ∈ marked, mark.lead.isCommand = false) (depth : Nat) :
    pipeDepths depth marked = pipeLevels depth (signsOf marked) := by
  induction marked generalizing depth with
  | nil => rfl
  | cons mark rest ih =>
    have hLead := hPlain mark List.mem_cons_self
    have hRest := ih fun other hOther => hPlain other (List.mem_cons_of_mem _ hOther)
    rw [signsOf_cons, pipeDepths]
    split
    · rw [signs_of_open ‹_› hLead, hRest]
      rfl
    · rename_i hNotOpen
      split
      · rw [signs_of_close ‹_› hLead, hRest]
        rfl
      · rename_i hNotClose
        split
        · rw [signs_of_pipe ‹_› hLead, hRest]
          rfl
        · rename_i hNotPipe
          have hNeutral : IsNeutral mark := ⟨by simpa using hNotOpen, by simpa using hNotClose⟩
          rw [hRest]
          rcases signs_of_neutral hNeutral (by simpa using hNotPipe) hLead with h | h | h <;>
            rw [h] <;> rfl

theorem isNested_groupBrackets_scoped {group : List Mark}
    (hPlain : ∀ mark ∈ group, mark.lead.isCommand = false) :
    IsNested (groupBrackets .scoped group) ↔
      IsNested (fences (pipeLevels 0 (signsOf group)) [] 0 (signsOf group)) := by
  rw [groupBrackets, pipeDepths_eq_pipeLevels hPlain, pipeSides, sizeSigns_scopedSides,
    isNested_relabel_fences_iff]

theorem Cut.exists_of_group {marked group : List Mark} {pieces : List Chunk} (h : Cut marked pieces)
    (hGroup : .group group ∈ pieces) :
    IsGroup group ∧ ∃ before after, marked = before ++ (group ++ after) := by
  induction h with
  | loose _ => simp at hGroup
  | unclosed _ _ _ => simp at hGroup
  | @group before first rest pieces _ hFirst _ ih =>
    rcases List.mem_cons.mp hGroup with hLoose | hGroup
    · cases hLoose
    · rcases List.mem_cons.mp hGroup with hHere | hLater
      · cases hHere
        exact ⟨hFirst, before, rest, rfl⟩
      · obtain ⟨hIsGroup, between, after, rfl⟩ := ih hLater
        exact ⟨hIsGroup, before ++ (first ++ between), after, by simp⟩

section Sized

variable {text : Text} {group : List Mark}

theorem isCommand_of_group (hText : IsOrderly text) (hGroup : .group group ∈ chunks text) :
    ∀ mark ∈ group, mark.lead.isCommand = false := by
  obtain ⟨-, before, after, hMarks⟩ := (chunks_cut text).exists_of_group hGroup
  intro mark hMark
  refine isCommand_of_not_mem hText.unsized mark ?_
  rw [hMarks]
  exact List.mem_append_right _ (List.mem_append_left _ hMark)

/-- Sized markup is nested exactly when every pair of pipes in a sized group encloses a nested
part. -/
theorem isNested_brackets_size_scoped_iff (hText : IsOrderly text) :
    IsNested (brackets (size .scoped text)) ↔
      ∀ group, .group group ∈ chunks text → hasFraction group →
        ∀ before inside after, IsPair (signsOf group) before inside after → IsNested inside := by
  rw [isNested_brackets_size_iff (by decide) hText]
  refine forall_congr' fun group => forall_congr' fun hGroup => forall_congr' fun _ => ?_
  rw [isNested_groupBrackets_scoped (isCommand_of_group hText hGroup)]
  exact isNested_fences_iff (isNested_group hText group hGroup)

theorem fenced_group (hText : IsOrderly text) (hFenced : Fenced (signs text))
    (hGroup : .group group ∈ chunks text) : Fenced (signsOf group) := by
  obtain ⟨hIsGroup, before, after, hMarks⟩ := (chunks_cut text).exists_of_group hGroup
  obtain ⟨body, hSigns, hLevel⟩ := hIsGroup.signs_eq (isCommand_of_group hText hGroup)
  have hNested := isNested_group hText group hGroup
  rw [hSigns] at hNested
  have hBody : IsNested body := (isNested_of_between hNested hLevel).1
  have hWhole : signs text = signsOf before ++ (signsOf group ++ signsOf after) := by
    change signsOf (marks text) = _
    rw [hMarks, signsOf_append, signsOf_append]
  rw [hWhole, hSigns] at hFenced
  rw [hSigns]
  exact hFenced.of_group hBody

/-- Fenced markup is nested when its pipes are sized. -/
theorem isNested_brackets_size_of_fenced (hText : IsOrderly text)
    (hFenced : Fenced (signs text)) : IsNested (brackets (size .scoped text)) := by
  rw [isNested_brackets_size_iff (by decide) hText]
  intro group hGroup _
  rw [isNested_groupBrackets_scoped (isCommand_of_group hText hGroup)]
  exact (fenced_group hText hFenced hGroup).isNested_fences (isNested_group hText group hGroup)

end Sized

end Delimiter

end Formulary
