import Formulary.Proofs.Render.Visit
import Formulary.Proofs.Text.Segment
import Formulary.Proofs.Text.Template

/-!
# Localized templates

A template is filled with the fragments of its arguments and the filled text is turned into markup.
The fragments are inline math, and the markup takes their delimiters off again. For up to nine
arguments nothing else happens to them: the markup is that of the parts of the template, in order
(`renderWithin_template`).

* `Part.markup` is the markup of a part, given the inner text of every fragment;
* `localize_fill` cuts the filled text into the parts that were put together;
* `plan_template` is what a node with a template asks for.
-/

namespace Formulary

open Text Placeholder

/-- The markup of a part of a template: prose as text, and the inner text of a fragment. -/
def Placeholder.Part.markup (inner : Nat → Text) : Part → Text
  | .prose run => "\\text".toList ++ Text.braced run
  | .slot position => inner position

/-- The inner text of a fragment that can be read back: it is not empty, stays on one line, and
mentions neither the closing delimiter nor a placeholder. -/
structure IsInner (inner : Text) : Prop where
  nonempty : inner ≠ []
  line : '\n' ∉ inner
  closing : mentions "\\)".toList inner = false
  placeholder : mentions "ARG".toList inner = false

theorem wrap_inline (inner : Text) :
    Markup.wrap .inline inner = "\\(".toList ++ inner ++ "\\)".toList := rfl

theorem mentions_wrap (inner : Text) :
    mentions "ARG".toList (Markup.wrap .inline inner) = mentions "ARG".toList inner := by
  have hWord : "ARG".toList ≠ [] := by decide
  have hSlash : '\\' ∉ "ARG".toList := by decide
  have hOpen : '(' ∉ "ARG".toList := by decide
  have hText : Markup.wrap .inline inner =
      [] ++ '\\' :: ([] ++ '(' :: (inner ++ '\\' :: [')'])) := by
    rw [wrap_inline, List.append_assoc]
    rfl
  rw [hText, mentions_append_cons hWord hSlash, mentions_append_cons hWord hOpen,
    mentions_append_cons hWord hSlash]
  cases mentions "ARG".toList inner <;> decide

theorem isSpan_wrap {inner : Text} (h : mentions "ARG".toList inner = false) :
    IsSpan (Markup.wrap .inline inner) :=
  ⟨inner, wrap_inline inner, (mentions_wrap inner).trans h⟩

theorem IsInner.isSpan {inner : Text} (h : IsInner inner) : IsSpan (Markup.wrap .inline inner) :=
  isSpan_wrap h.placeholder

/-! ## From filled text to markup -/

theorem localize_span {inner : Text} (h : IsInner inner) (rest : Text) :
    localize (Markup.wrap .inline inner ++ rest) = inner ++ localize rest := by
  have hSegments := segments_span h.nonempty h.line h.closing rest
  rw [← wrap_inline] at hSegments
  rw [localize, hSegments]
  rfl

theorem localize_prose {run rest : Text} (hNe : run ≠ []) (hRun : '\\' ∉ run)
    (hRest : rest = [] ∨ ∃ tail, rest = '\\' :: tail) :
    localize (run ++ rest) = "\\text".toList ++ Text.braced run ++ localize rest := by
  rw [localize, segments_prose hNe hRun hRest]
  rfl

/-- The markup of a filled text is that of its parts. -/
theorem localize_fill {value inner : Nat → Text} {parts : List Part} (hJoined : IsJoined parts)
    (hSlots : ∀ position, .slot position ∈ parts →
      IsInner (inner position) ∧ value position = Markup.wrap .inline (inner position))
    (hProse : ∀ run, .prose run ∈ parts → '\\' ∉ run) :
    localize (parts.flatMap (Part.fill value)) = parts.flatMap (Part.markup inner) := by
  induction parts with
  | nil => rfl
  | cons part parts ih =>
    have hTail := ih hJoined.tail
      (fun position hMem => hSlots position (List.mem_cons_of_mem _ hMem))
      (fun run hMem => hProse run (List.mem_cons_of_mem _ hMem))
    rw [List.flatMap_cons, List.flatMap_cons, ← hTail]
    cases part with
    | slot position =>
      obtain ⟨hInner, hValue⟩ := hSlots position List.mem_cons_self
      have hFill : Part.fill value (.slot position) = Markup.wrap .inline (inner position) := hValue
      rw [hFill]
      exact localize_span hInner _
    | prose run =>
      have hNe := hJoined.nonempty run List.mem_cons_self
      have hRun := hProse run List.mem_cons_self
      have hRest : parts.flatMap (Part.fill value) = [] ∨
          ∃ tail, parts.flatMap (Part.fill value) = '\\' :: tail := by
        cases parts with
        | nil => exact .inl rfl
        | cons part parts =>
          cases part with
          | prose more => exact absurd rfl (hJoined.maximal [] run more parts)
          | slot position =>
            have hSecond := hSlots position (List.mem_cons_of_mem _ List.mem_cons_self)
            rw [List.flatMap_cons, Part.fill, hSecond.2]
            exact .inr ⟨_, rfl⟩
      exact localize_prose hNe hRun hRest

/-! ## Rendering a template -/

theorem plan_template {node : Node} {template : Text} (hTag : node.tag? = some .template)
    (hText : (node.children[2]?).bind Node.text? = some template) :
    node.plan = .ok (.template template node.templateArgs) := by
  obtain ⟨child, hChild, hTemplate⟩ := Option.bind_eq_some_iff.mp hText
  have hLength : 2 < node.children.length := (List.getElem?_eq_some_iff.mp hChild).1
  have hCheck : Tag.check .template node = .ok () := by
    rw [Tag.check, if_neg (by rw [Tag.arity]; omega)]
    rfl
  have hNeed : node.needChildText .template 2 = .ok template := by
    rw [Node.needChildText, hChild]
    simp only [Node.needText, hTemplate]
  rw [Node.plan, hTag]
  simp only [hCheck, Node.planOf, Layout.ofTag, hNeed]
  rfl

theorem outcome_template {settings : Settings} {room : Nat} {node : Node} {template : Text}
    {fragments : List Text} (hPlan : node.plan = .ok (.template template node.templateArgs))
    (hArgs : (node.templateArgs.mapM (fragmentWithin settings room)).outcome = .ok fragments) :
    (renderWithin settings (room + 1) node).outcome =
      .ok (localize (fill settings.substitution fragments template)) := by
  rw [renderWithin_succ, hPlan, Run.ofExcept_bind_ok, Plan.follow_template]
  exact Run.outcome_bind_of_ok hArgs _

/-- The markup of a template, wherever it stands above the depth limit, is that of its prose and of
its arguments' fragments, in order. -/
theorem renderWithin_template (settings : Settings) {room : Nat} {node : Node} {template : Text}
    {inners : List Text} (hTag : node.tag? = some .template)
    (hText : (node.children[2]?).bind Node.text? = some template) (hSlash : '\\' ∉ template)
    (hCount : node.templateArgs.length ≤ 9)
    (hArgs : List.Forall₂ (fun arg inner =>
      (fragmentWithin settings room arg).outcome = .ok (Markup.wrap .inline inner))
        node.templateArgs inners)
    (hInners : ∀ inner ∈ inners, IsInner inner) :
    ∃ parts, IsCut settings.substitution node.templateArgs.length template parts ∧
      (renderWithin settings (room + 1) node).outcome =
        .ok (parts.flatMap (Part.markup (valueAt inners))) := by
  have hFragments : (node.templateArgs.mapM (fragmentWithin settings room)).outcome =
      .ok (inners.map (Markup.wrap .inline)) :=
    Run.outcome_mapM (List.forall₂_map_right_iff.mpr hArgs)
  have hSpans : ∀ value ∈ inners.map (Markup.wrap .inline), IsSpan value := by
    intro value hValue
    obtain ⟨inner, hMem, rfl⟩ := List.mem_map.mp hValue
    exact (hInners inner hMem).isSpan
  have hLength : (inners.map (Markup.wrap .inline)).length = node.templateArgs.length := by
    rw [List.length_map, hArgs.length_eq]
  obtain ⟨parts, hCut, hFill⟩ := exists_isCut_fill settings.substitution
    (by rw [hLength]; omega) hSpans template
  rw [hLength] at hCut
  refine ⟨parts, hCut, ?_⟩
  rw [outcome_template (plan_template hTag hText) hFragments, hFill]
  refine congrArg _ (localize_fill hCut.joined ?_ ?_)
  · intro position hMem
    obtain ⟨hPos, hLe⟩ := hCut.bounds hMem
    rw [hArgs.length_eq] at hLe
    exact ⟨hInners _ (valueAt_mem hPos hLe), valueAt_map _ hPos hLe⟩
  · exact fun run hMem hc => hSlash (hCut.mem_template hMem hc)

/-- A template that names its first argument twice. -/
def repeatedTemplate : Text := "ARG1 = ARG2, ARG1".toList

/-- A node with this template and two arguments. -/
def repeatedNode : Node where
  kind := "localized_text".toList
  children := [.leaf "string".toList (.text []), .leaf "string".toList (.text []),
    .leaf "string".toList (.text repeatedTemplate)]
  args := [.leaf "var".toList (.text "x_1".toList), .leaf "const".toList (.text "2.5".toList)]

theorem renderWithin_repeatedNode :
    (∃ parts, IsCut .first 2 repeatedTemplate parts ∧
      (renderWithin {} 2 repeatedNode).outcome =
        .ok (parts.flatMap (Part.markup (valueAt ["x_\x7b1\x7d".toList, "2\x7b,\x7d5".toList])))) ∧
    (renderWithin {} 2 repeatedNode).outcome =
      .ok "x_\x7b1\x7d\\text\x7b = \x7d2\x7b,\x7d5\\text\x7b, ARG1\x7d".toList := by
  have hInners : ∀ inner ∈ ["x_\x7b1\x7d".toList, "2\x7b,\x7d5".toList], IsInner inner := by
    intro inner hMem
    rcases List.mem_pair.mp hMem with rfl | rfl <;> constructor <;> decide
  have hTag : repeatedNode.tag? = some .template := by decide +kernel
  have hText : (repeatedNode.children[2]?).bind Node.text? = some repeatedTemplate := rfl
  have hArgs : List.Forall₂ (fun arg inner =>
      (fragmentWithin {} 1 arg).outcome = .ok (Markup.wrap .inline inner))
        repeatedNode.templateArgs ["x_\x7b1\x7d".toList, "2\x7b,\x7d5".toList] :=
    .cons (by decide +kernel) (.cons (by decide +kernel) .nil)
  exact ⟨renderWithin_template {} hTag hText (by decide) (by decide) hArgs hInners,
    by decide +kernel⟩

end Formulary
