import Formulary.Proofs.Render.Reach
import Formulary.Proofs.Render.Template
import Formulary.Proofs.Text.Capture
import Formulary.Solution.Template

/-!
# Fragments that name placeholders

The text of a localized node, and of a title, a method or a header of a solution, is filled with the
fragments of its arguments. A fragment may itself hold the text of a placeholder: a string `ARG2`,
or a nested template with placeholders of its own. The filled text is then that of all fragments put
in at once exactly when no fragment is captured by a later argument (`fill_fragments_iff`).
-/

namespace Formulary

open Text Placeholder

/-- The fragments of up to nine arguments, put one after the other into a text, stay as they are
exactly when none is captured; so it is for a node with this text and for a text of a solution. -/
theorem fill_fragments_iff (settings : Settings) {room : Nat} {args : List Node}
    {fragments : List Text} (text : Text) (hCount : args.length ≤ 9)
    (hArgs : (args.mapM (fragmentWithin settings room)).outcome = .ok fragments) :
    (∃ parts, IsCut settings.substitution args.length text parts ∧
      (fill settings.substitution fragments text = parts.flatMap (Part.fill (valueAt fragments)) ↔
        ¬ IsCaptured settings.substitution args.length (valueAt fragments) parts)) ∧
    (∀ node : Node, node.tag? = some .template →
      (node.children[2]?).bind Node.text? = some text → node.templateArgs = args →
        (renderWithin settings (room + 1) node).outcome =
          .ok (localize (fill settings.substitution fragments text))) ∧
    (room = settings.maxDepth → (Template.render settings { text, args }).outcome =
      .ok (fill settings.substitution fragments text)) := by
  obtain ⟨raws, hRaws, hFragments⟩ := exists_of_mapM_fragment
    (P := fun _ _ => True) hArgs fun _ _ _ _ => trivial
  have hLength : fragments.length = args.length := by
    rw [hFragments, List.length_map, hRaws.length_eq]
  have hWrapped : ∀ fragment ∈ fragments, IsWrapped fragment := by
    intro fragment hMem
    rw [hFragments] at hMem
    obtain ⟨raw, -, rfl⟩ := List.mem_map.mp hMem
    exact ⟨_, wrap_inline _⟩
  refine ⟨?_, ?_, ?_⟩
  · rw [← hLength]
    exact exists_isCut_fill_iff settings.substitution (by omega) hWrapped text
  · rintro node hTag hText rfl
    exact outcome_template (plan_template hTag hText) hArgs
  · rintro rfl
    rw [Template.render, substitute_eq]
    exact Run.outcome_bind_of_ok hArgs _

/-- A string that reads like the second placeholder, and a variable. -/
def namingArgs : List Node :=
  [.leaf "string".toList (.text "ARG2".toList), .leaf "var".toList (.text "x".toList)]

/-- The fragments of these arguments. -/
def namingFragments : List Text := ["\\(\\text\x7bARG2\x7d\\)".toList, "\\(x\\)".toList]

/-- A node that fills a text with these arguments. -/
def namingNode (text : Text) : Node where
  kind := "localized_text".toList
  children := [.leaf "string".toList (.text []), .leaf "string".toList (.text []),
    .leaf "string".toList (.text text)]
  args := namingArgs

/-- Where the second argument's own placeholder stands first, the string is not captured. -/
theorem fill_fragments_iff_ordered :
    ((∃ parts, IsCut .first 2 "ARG2: ARG1".toList parts ∧
        (fill .first namingFragments "ARG2: ARG1".toList =
            parts.flatMap (Part.fill (valueAt namingFragments)) ↔
          ¬ IsCaptured .first 2 (valueAt namingFragments) parts)) ∧
      (renderWithin {} 257 (namingNode "ARG2: ARG1".toList)).outcome =
        .ok (localize (fill .first namingFragments "ARG2: ARG1".toList)) ∧
      (Template.render {} { text := "ARG2: ARG1".toList, args := namingArgs }).outcome =
        .ok (fill .first namingFragments "ARG2: ARG1".toList)) ∧
    fill .first namingFragments "ARG2: ARG1".toList =
      "\\(x\\): \\(\\text\x7bARG2\x7d\\)".toList := by
  have hArgs : (namingArgs.mapM (fragmentWithin {} 256)).outcome = .ok namingFragments := by
    decide +kernel
  have hTag : (namingNode "ARG2: ARG1".toList).tag? = some .template := by decide +kernel
  obtain ⟨hFill, hNode, hRender⟩ :=
    fill_fragments_iff {} "ARG2: ARG1".toList (by decide) hArgs
  exact ⟨⟨hFill, hNode _ hTag rfl rfl, hRender rfl⟩, by decide⟩

theorem isCut_inOrder : IsCut .first 2 "ARG1 ARG2".toList [.slot 1, .prose [' '], .slot 2] := by
  have hNone : ∀ position, IsFree .first 2 [1] position →
      (name position).isPrefixOf (' ' :: name 2) = false := fun position _ => rfl
  have hReading : Reading .first 2 [] (name 1 ++ ' ' :: (name 2 ++ []))
      [.slot 1, .prose [' '], .slot 2] :=
    .slot (by decide) (.prose hNone (.slot (by decide) .nil))
  exact hReading.isCut (by decide)

/-- Where it does not, the second value goes into the first fragment. -/
theorem fill_fragments_ne_inOrder :
    (namingArgs.mapM (fragmentWithin {} 255)).outcome = .ok namingFragments ∧
    (renderWithin {} 256 (namingNode "ARG1 ARG2".toList)).outcome =
      .ok (localize (fill .first namingFragments "ARG1 ARG2".toList)) ∧
    ∃ parts, IsCut .first 2 "ARG1 ARG2".toList parts ∧
      fill .first namingFragments "ARG1 ARG2".toList ≠
        parts.flatMap (Part.fill (valueAt namingFragments)) :=
  ⟨by decide +kernel, by decide +kernel, _, isCut_inOrder, by decide⟩

end Formulary
