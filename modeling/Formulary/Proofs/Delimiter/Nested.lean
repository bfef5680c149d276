import Formulary.Proofs.Delimiter.Bracket

/-!
# Sized markup is nested group by group

The markup between two groups keeps its braces, and a sized group begins and ends with a sized
parenthesis. So when markup is nested, its groups are nested by themselves (`isNested_group`), and
the sized markup is nested exactly when every sized group is (`isNested_brackets_size_iff`). With
pipes left alone, it always is (`isNested_brackets_size_off`).
-/

namespace Formulary.Delimiter

/-! ## Groups -/

/-- The brackets of a group that is sized. -/
def groupBrackets (pipes : PipeSizing) (group : List Mark) : List (Sign Written) :=
  sizeSigns (pipeSides pipes 0 (pipeDepths 0 group)) (signsOf group)

section Groups

variable {group marked : List Mark}

theorem IsGroup.signs_eq (hGroup : IsGroup group)
    (hPlain : ∀ mark ∈ group, mark.lead.isCommand = false) :
    ∃ body, signsOf group = .opening .paren :: (body ++ [.closing .paren]) ∧
      level .paren 0 body = some 0 := by
  obtain ⟨opening, body, closing, rfl, hOpen, hBody, hClose⟩ := hGroup
  refine ⟨signsOf body, ?_, ?_⟩
  · rw [signsOf_cons, signsOf_append, signsOf_cons, signs_of_open hOpen (hPlain _ (by simp)),
      signs_of_close hClose (hPlain _ (by simp))]
    rfl
  · rw [← depthThrough_eq_level fun mark hMark => hPlain mark (by simp [hMark])]
    exact hBody

theorem groupBrackets_eq (pipes : PipeSizing) {body : List (Sign Bracket)}
    (h : signsOf group = .opening .paren :: (body ++ [.closing .paren])) :
    groupBrackets pipes group = .opening (.sized '(') ::
      (sizeSigns (pipeSides pipes 0 (pipeDepths 0 group)) body ++ [.closing (.sized '(')]) := by
  rw [groupBrackets, h, sizeSigns_cons (by decide), sizeSigns_append_singleton]
  rfl

/-- A group is nested as soon as what stands between its parentheses closes the way it opens. -/
theorem isNested_groupBrackets {pipes : PipeSizing} (hGroup : IsGroup group)
    (hPlain : ∀ mark ∈ group, mark.lead.isCommand = false) {stack next : List Written}
    {rest : List (Sign Written)} (h : nest stack (groupBrackets pipes group ++ rest) = some next) :
    IsNested (groupBrackets pipes group) ∧ nest stack rest = some next := by
  obtain ⟨body, hSigns, hLevel⟩ := hGroup.signs_eq hPlain
  rw [groupBrackets_eq pipes hSigns] at h ⊢
  rw [List.cons_append, List.append_assoc, List.singleton_append] at h
  obtain ⟨hBody, hRest⟩ := isNested_of_between h (by rw [level_sizeSigns, hLevel])
  exact ⟨hBody.between _, hRest⟩

/-- A group is written sized when it has a fraction, and with its braces only otherwise. -/
theorem exists_flatMap_brackets_group {pipes : PipeSizing} (hPipes : pipes ≠ .firstPair)
    (hGroup : IsGroup group) (hPlain : ∀ mark ∈ group, mark.lead.isCommand = false) (passed : Nat)
    (pieces : List Chunk) :
    ∃ later, (fitChunks pipes passed (.group group :: pieces)).flatMap Fitted.brackets =
      (if hasFraction group then groupBrackets pipes group
        else relabel looseName (signsOf group)) ++
      (fitChunks pipes later pieces).flatMap Fitted.brackets := by
  by_cases hFraction : hasFraction group
  · refine ⟨passed + (pipeDepths 0 group).length, ?_⟩
    have hFit := @flatMap_brackets_fit group hPlain 0 0 hGroup.balanced
      (pipeSides pipes 0 (pipeDepths 0 group))
    rw [List.replicate_zero] at hFit
    simp only [fitChunks, hFraction, if_true, List.flatMap_append, pipeSides_passed hPipes passed,
      hFit]
    rfl
  · refine ⟨passed, ?_⟩
    simp only [fitChunks, hFraction, Bool.false_eq_true, if_false, List.flatMap_append,
      flatMap_brackets_unfitted]

/-- Every group of nested markup is nested by itself, and what is written is nested when every sized
group is. -/
theorem Cut.nest_iff {pipes : PipeSizing} (hPipes : pipes ≠ .firstPair) {pieces : List Chunk}
    (hCut : Cut marked pieces) (hPlain : ∀ mark ∈ marked, mark.lead.isCommand = false)
    {stack : List Bracket} (hNest : nest stack (signsOf marked) = some []) (passed : Nat) :
    (∀ group, .group group ∈ pieces → IsNested (signsOf group)) ∧
      (nest (stack.filterMap looseName)
          ((fitChunks pipes passed pieces).flatMap Fitted.brackets) = some [] ↔
        ∀ group, .group group ∈ pieces → hasFraction group →
          IsNested (groupBrackets pipes group)) := by
  induction hCut generalizing stack passed with
  | @loose marked hLoose =>
    have hOut := nest_relabel looseName hNest
    simpa [fitChunks, flatMap_brackets_unfitted] using hOut
  | @unclosed before opening after hLoose hOpen hAfter =>
    -- A parenthesis that is never closed would be open at the end.
    exfalso
    rw [signsOf_append, signsOf_cons, signs_of_open hOpen (hPlain _ (by simp))] at hNest
    obtain ⟨between, -, hBehind⟩ := exists_of_nest_append hNest
    obtain ⟨opened, hOpened, hRest⟩ := nest_cons_eq_some hBehind
    cases hOpened
    obtain ⟨depth, hDepth⟩ := Option.ne_none_iff_exists'.mp hAfter
    rw [depthThrough_eq_level fun mark hMark => hPlain mark (by simp [hMark])] at hDepth
    have hRest : nest ([] ++ .paren :: between) (signsOf after) = some [] := hRest
    obtain ⟨above, -, hNil, -⟩ := nest_base hRest hDepth
    simp at hNil
  | @group before group rest pieces hLoose hGroup hCut ih =>
    have hPlainGroup : ∀ mark ∈ group, mark.lead.isCommand = false :=
      fun mark hMark => hPlain mark (by simp [hMark])
    obtain ⟨body, hSigns, hLevel⟩ := hGroup.signs_eq hPlainGroup
    rw [signsOf_append, signsOf_append] at hNest
    obtain ⟨between, hBefore, hBehind⟩ := exists_of_nest_append hNest
    rw [hSigns, List.cons_append, List.append_assoc, List.singleton_append] at hBehind
    obtain ⟨hBody, hRest⟩ := isNested_of_between hBehind hLevel
    have hNested : IsNested (signsOf group) := hSigns ▸ hBody.between _
    obtain ⟨later, hOut⟩ := exists_flatMap_brackets_group hPipes hGroup hPlainGroup passed pieces
    obtain ⟨hGroups, hLater⟩ := ih (fun mark hMark => hPlain mark (by simp [hMark])) hRest later
    have hLoose : (fitChunks pipes passed (.loose before :: .group group :: pieces)).flatMap
        Fitted.brackets = relabel looseName (signsOf before) ++
          (fitChunks pipes passed (.group group :: pieces)).flatMap Fitted.brackets := by
      rw [fitChunks, List.flatMap_append, flatMap_brackets_unfitted]
    rw [hLoose, nest_append_of_eq (nest_relabel looseName hBefore), hOut]
    simp only [List.mem_cons, reduceCtorEq, false_or, Chunk.group.injEq, forall_eq_or_imp]
    refine ⟨⟨hNested, hGroups⟩, ?_⟩
    by_cases hFraction : hasFraction group
    · rw [if_pos hFraction]
      constructor
      · intro hAll
        obtain ⟨hHere, hBehind⟩ := isNested_groupBrackets hGroup hPlainGroup hAll
        exact ⟨fun _ => hHere, hLater.mp hBehind⟩
      · rintro ⟨hHere, hOthers⟩
        rw [nest_append_of_eq ((hHere hFraction).nest_eq _)]
        exact hLater.mpr hOthers
    · rw [if_neg hFraction, nest_append_of_eq ((hNested.relabel looseName).nest_eq _), hLater]
      exact ⟨fun hOthers => ⟨fun h => absurd h hFraction, hOthers⟩, And.right⟩

end Groups

/-! ## Sized markup -/

section Sized

variable {text : Text}

theorem isNested_group (hText : IsOrderly text) :
    ∀ group, .group group ∈ chunks text → IsNested (signsOf group) := by
  have hOff : PipeSizing.off ≠ .firstPair := by decide
  exact ((chunks_cut text).nest_iff hOff (isCommand_of_not_mem hText.unsized) hText.nested 0).1

/-- Sized markup is nested when every sized group is. -/
theorem isNested_brackets_size_iff {pipes : PipeSizing} (hPipes : pipes ≠ .firstPair)
    (hText : IsOrderly text) : IsNested (brackets (size pipes text)) ↔
      ∀ group, .group group ∈ chunks text → hasFraction group →
        IsNested (groupBrackets pipes group) := by
  rw [brackets_size hText.unsized]
  exact ((chunks_cut text).nest_iff hPipes (isCommand_of_not_mem hText.unsized) hText.nested 0).2

/-- With pipes left alone, sized markup is nested. -/
theorem isNested_brackets_size_off (hText : IsOrderly text) :
    IsNested (brackets (size .off text)) := by
  rw [isNested_brackets_size_iff (by decide) hText]
  intro group hGroup _
  have hSides : ∀ side ∈ pipeSides .off 0 (pipeDepths 0 group), side = none := by
    simp [pipeSides]
  rw [groupBrackets, sizeSigns_none hSides]
  exact (isNested_group hText group hGroup).relabel sizedName

end Sized

end Formulary.Delimiter
