import Formulary.Convert
import Formulary.Proofs.Render.Reach

/-!
# What a checked tree can still fail with

A tree whose shape has been checked has the children and the values that its layouts need, with one
exception: a repeating decimal and a template read the values of their children, which no check asks
for. What is left is late: such a value is missing or is no count, too many digits repeat, or the
tree is too deep.

* `isLate_of_plan`: the plan of a checked node fails late;
* `outcome_of_validate`: so do a checked tree and a text that holds one.
-/

namespace Formulary

namespace RenderError

/-- A failure that a check of the shape finds: children are missing, or the value of a node that
is written as its value. -/
inductive IsShape : RenderError → Prop
  | malformedNode (tag : Tag) (found : Nat) : IsShape (.malformedNode tag found)
  | missingValue {tag : Tag} (hNeeds : tag.needsValue) : IsShape (.missingValue tag)

/-- A failure that a check of the shape leaves. -/
inductive IsLate : RenderError → Prop
  | depthExceeded (limit : Nat) : IsLate (.depthExceeded limit)
  | repeatTooLong (length width : Nat) : IsLate (.repeatTooLong length width)
  | invalidCount (value : Text) : IsLate (.invalidLiteral .repeating value)
  | missingDigits : IsLate (.missingValue .repeating)
  | missingTemplate : IsLate (.missingValue .template)

theorem IsLate.not_isShape {error : RenderError} (h : error.IsLate) : ¬ error.IsShape := by
  intro hShape
  cases hShape with
  | malformedNode tag found => cases h
  | missingValue hNeeds => cases h <;> cases hNeeds

end RenderError

namespace Node

/-! ## Checked nodes -/

theorem check_of_validate {root node : Node} (h : root.validate = .ok ())
    (hNode : node ∈ root.visits) : node.check = .ok () :=
  forM_eq_ok_iff.mp h node hNode

theorem value_ne_none_of_check {tag : Tag} {node : Node} (h : tag.check node = .ok ())
    (hNeeds : tag.needsValue) : node.value ≠ none := by
  intro hNone
  unfold Tag.check at h
  split at h
  · cases h
  · rw [hNeeds, hNone] at h
    cases h

theorem needText_error {tag : Tag} {node : Node} {error : RenderError}
    (h : node.needText tag = .error error) : node.value = none ∧ error = .missingValue tag := by
  unfold needText at h
  split at h
  · cases h
  · rename_i hText
    cases h
    exact ⟨Option.map_eq_none_iff.mp hText, rfl⟩

/-- A child that is there can only lack its value. -/
theorem needChildText_error {tag : Tag} {node : Node} {index : Nat} {error : RenderError}
    (hIndex : index < node.children.length) (h : node.needChildText tag index = .error error) :
    error = .missingValue tag := by
  unfold needChildText at h
  rw [List.getElem?_eq_getElem hIndex] at h
  exact (needText_error h).2

theorem format_error {decimal : Text} {count : Nat} {error : RenderError}
    (h : Repeating.format decimal count = .error error) : error.IsLate := by
  simp only [Repeating.format] at h
  split at h
  · cases h
    exact .repeatTooLong _ _
  · cases h

theorem isLate_of_repeating {node : Node} {error : RenderError} (hArity : 2 ≤ node.children.length)
    (h : node.repeating = .error error) : error.IsLate := by
  rcases bind_error h with hDecimal | ⟨decimal, -, hRest⟩
  · rw [needChildText_error (by omega) hDecimal]
    exact .missingDigits
  · rcases bind_error hRest with hCount | ⟨repeats, -, hFormat⟩
    · rw [needChildText_error (by omega) hCount]
      exact .missingDigits
    · split at hFormat
      · exact format_error hFormat
      · cases hFormat
        exact .invalidCount repeats

theorem isLate_of_planOf {tag : Tag} {node : Node} {error : RenderError}
    (hCheck : tag.check node = .ok ()) (h : node.planOf tag = .error error) : error.IsLate := by
  have hArity := arity_le_of_check hCheck
  unfold planOf at h
  split at h
  · rename_i form hLayout
    rcases bind_error h with hText | ⟨text, -, hPlan⟩
    · exact absurd (needText_error hText).1
        (value_ne_none_of_check hCheck (Layout.needsValue_of_value hLayout))
    · cases hPlan
  · cases h
  · cases h
  · rename_i hLayout
    obtain rfl := Layout.eq_repeating hLayout
    rcases bind_error h with hMarkup | ⟨markup, -, hPlan⟩
    · exact isLate_of_repeating hArity hMarkup
    · cases hPlan
  · rename_i hLayout
    obtain rfl := Layout.eq_template hLayout
    rcases bind_error h with hText | ⟨text, -, hPlan⟩
    · rw [needChildText_error hArity hText]
      exact .missingTemplate
    · cases hPlan

/-- The plan of a node whose shape has been checked fails only with what the check leaves. -/
theorem isLate_of_plan {node : Node} {error : RenderError} (hCheck : node.check = .ok ())
    (h : node.plan = .error error) : error.IsLate := by
  unfold Node.plan at h
  unfold Node.check at hCheck
  split at h
  · cases h
  · rename_i tag hTag
    simp only [hTag] at hCheck
    rcases bind_error h with hShape | ⟨⟨⟩, -, hPlan⟩
    · cases hCheck.symm.trans hShape
    · exact isLate_of_planOf hCheck hPlan

end Node

/-! ## Checked trees -/

theorem isLate_of_render {settings : Settings} {node : Node} {error : RenderError}
    (hValid : node.validate = .ok ()) (h : (render settings node).outcome = .error error) :
    error.IsLate := by
  rcases exists_of_renderWithin_error h with rfl | ⟨below, hBelow, hPlan⟩
  · exact .depthExceeded settings.maxDepth
  · exact Node.isLate_of_plan
      (Node.check_of_validate hValid (Node.mem_visits_of_reaches hBelow)) hPlan

/-- Finishing markup does not fail. -/
theorem render_of_convert_error {settings : Settings} {node : Node} {error : RenderError}
    (h : (convert settings node).outcome = .error error) :
    (render settings node).outcome = .error error := by
  rcases Run.outcome_bind_error h with hRender | ⟨raw, -, hDelimited⟩
  · exact hRender
  · cases hDelimited

theorem validate_of_ofJson {text : Text} {node : Node} (h : Node.ofJson text = .ok node) :
    node.validate = .ok () := by
  obtain ⟨decoded, -, hRest⟩ := exists_of_bind_ok h
  obtain ⟨⟨⟩, hValid, hPure⟩ := exists_of_bind_ok hRest
  cases hPure
  exact of_mapError_ok hValid

/-- A tree whose shape has been checked, or that was read from a text, is rendered and converted
unless it fails late, and what fails late is no failure of shape. -/
theorem outcome_of_validate (settings : Settings) :
    (∀ node : Node, node.validate = .ok () → ∀ error,
      (render settings node).outcome = .error error ∨
          (convert settings node).outcome = .error error →
        error.IsLate ∧ ¬ error.IsShape) ∧
    ∀ (text : Text) (node : Node), Node.ofJson text = .ok node → ∀ failure,
      (convertJson settings text).outcome = .error failure →
        ∃ error, failure = .render error ∧ error.IsLate ∧ ¬ error.IsShape := by
  have hTree : ∀ node : Node, node.validate = .ok () → ∀ error,
      (render settings node).outcome = .error error ∨
          (convert settings node).outcome = .error error →
        error.IsLate ∧ ¬ error.IsShape := by
    intro node hValid error hError
    have hRender := hError.elim id render_of_convert_error
    have hLate := isLate_of_render hValid hRender
    exact ⟨hLate, hLate.not_isShape⟩
  refine ⟨hTree, fun text node hRead failure hFailure => ?_⟩
  have hConvert : ((convert settings node).outcome.mapError Failure.render) = .error failure := by
    rw [convertJson, hRead, Run.ofExcept_bind_ok] at hFailure
    exact hFailure
  cases hOutcome : (convert settings node).outcome with
  | ok markup =>
    rw [hOutcome] at hConvert
    cases hConvert
  | error error =>
    rw [hOutcome] at hConvert
    cases hConvert
    exact ⟨error, rfl, hTree node (validate_of_ofJson hRead) error (.inr hOutcome)⟩

/-- A template whose third child has no value. -/
def blankTemplate : Node :=
  .ofChildren "localized_text".toList [.ofChildren "list".toList [], .ofChildren "list".toList [],
    .ofChildren "list".toList []]

/-- A repeating decimal with one digit, of which two repeat. -/
def longRepeat : Node :=
  .ofChildren "periodic_localize".toList
    [.leaf "const".toList (.text "0.3".toList), .leaf "const".toList (.text "3".toList)]

theorem outcome_of_validate_late :
    blankTemplate.validate = .ok () ∧
      (convert {} blankTemplate).outcome = .error (.missingValue .template) ∧
      (∃ node, Node.ofJson longRepeat.dump = .ok node) ∧
      (convertJson {} longRepeat.dump).outcome = .error (.render (.repeatTooLong 3 2)) ∧
      (RenderError.missingValue .template).IsLate ∧
      ∃ error, Failure.render (.repeatTooLong 3 2) = .render error ∧ error.IsLate ∧
        ¬ error.IsShape := by
  have hValid : blankTemplate.validate = .ok () := by decide +kernel
  have hError : (convert {} blankTemplate).outcome = .error (.missingValue .template) := by
    decide +kernel
  have hRead : ∃ node, Node.ofJson longRepeat.dump = .ok node := by
    have hOk : (Node.ofJson longRepeat.dump).toBool = true := by decide +kernel
    cases hNode : Node.ofJson longRepeat.dump with
    | ok node => exact ⟨node, rfl⟩
    | error failure =>
      rw [hNode] at hOk
      cases hOk
  have hFailure : (convertJson {} longRepeat.dump).outcome =
      .error (.render (.repeatTooLong 3 2)) := by decide +kernel
  obtain ⟨hTree, hText⟩ := outcome_of_validate {}
  obtain ⟨node, hNode⟩ := hRead
  exact ⟨hValid, hError, ⟨node, hNode⟩, hFailure, (hTree blankTemplate hValid _ (.inr hError)).1,
    hText longRepeat.dump node hNode _ hFailure⟩

end Formulary
