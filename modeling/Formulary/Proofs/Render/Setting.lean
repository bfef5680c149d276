import Formulary.Proofs.Render.Alike

/-!
# Which settings matter

Raw markup depends on the depth limit, and on the settings of the stages only where a template is
filled: there the arguments are finished before they are put in, always as inline math. So the style
of the delimiters and the heading of an answer never show in it, and no setting but the depth limit
shows in the markup of a tree without templates.

* `Settings.Agree` relates settings that differ in the style and the heading at most;
* `renderWithin_of_settings` follows two runs of one tree under two settings, level by level;
* `render_of_settings` says what the two runs have in common from outside.
-/

namespace Formulary

open Markup

/-- Two settings differ in the style of the delimiters and the heading of an answer at most. -/
structure Settings.Agree (first second : Settings) : Prop where
  maxDepth : first.maxDepth = second.maxDepth
  substitution : first.substitution = second.substitution
  displayFractions : first.displayFractions = second.displayFractions
  pipeSizing : first.pipeSizing = second.pipeSizing

section

variable {first second : Settings}

/-! ## Stages -/

/-- The stages read neither the style nor the heading. -/
theorem Settings.Agree.apply_eq (h : first.Agree second) (stage : Stage) :
    stage.apply first = stage.apply second := by
  funext text
  cases stage with
  | symbols => rw [Stage.apply, Stage.apply, h.displayFractions]
  | scripts => rfl
  | delimiters => rw [Stage.apply, Stage.apply, h.pipeSizing]

theorem Settings.Agree.passes_eq (h : first.Agree second) (stages : List Stage) (text : Text) :
    Stage.passes first stages text = Stage.passes second stages text := by
  induction stages generalizing text with
  | nil => rfl
  | cons stage rest ih => rw [Stage.passes, Stage.passes, h.apply_eq stage, ih]

theorem Settings.Agree.finished_eq (h : first.Agree second) (raw : Text) :
    finished first raw = finished second raw := by
  have hApply : (fun (text : Text) (stage : Stage) => stage.apply first text) =
      fun text stage => stage.apply second text := by
    funext text stage
    rw [h.apply_eq stage]
  rw [finished, finished, h.passes_eq, finish, finish, hApply]

/-! ## Templates -/

/-- Only a template asks for fragments, and its plan comes from a node that is tagged so. -/
theorem Node.tag?_of_plan_template {node : Node} {text : Text} {args : List Node}
    (h : node.plan = .ok (.template text args)) : node.tag? = some .template := by
  cases hTag : node.tag? with
  | none => cases (plan_of_tag?_eq_none hTag).symm.trans h
  | some tag =>
    rcases planOf_cases ((plan_eq_ok_iff hTag).mp h).2 with
      ⟨markup, hWrite⟩ | ⟨nodes, assemble, hOperands⟩ | ⟨hLayout, -⟩
    · cases hWrite
    · cases hOperands
    · rw [Layout.eq_template hLayout]

/-! ## Levels -/

/-- Fragments are finished markup between inline delimiters, whatever the style is. -/
theorem Settings.Agree.fragmentWithin_eq (h : first.Agree second) {room : Nat} {arg : Node}
    (hRender : renderWithin first room arg = renderWithin second room arg) :
    fragmentWithin first room arg = fragmentWithin second room arg := by
  have hDelimited : delimited first .inline = delimited second .inline := by
    funext raw
    rw [delimited, delimited, h.finished_eq]
  rw [fragmentWithin, fragmentWithin, hRender, hDelimited]

/-- A plan comes to the same when the nodes that it asks for do, and a template besides when the
settings agree. -/
theorem Plan.follow_of_settings {room : Nat} {plan : Plan}
    (hTemplate : ∀ text args, plan = .template text args → first.Agree second)
    (hNodes : ∀ below ∈ plan.nodes, renderWithin first room below = renderWithin second room below)
    (node : Node) :
    plan.follow (fun run => run) first (renderWithin first room) (fragmentWithin first room) node =
      plan.follow (fun run => run) second (renderWithin second room) (fragmentWithin second room)
        node := by
  cases plan with
  | write markup => rfl
  | dump => rfl
  | operands nodes assemble =>
    have hMarkups : nodes.mapM (renderWithin first room) = nodes.mapM (renderWithin second room) :=
      Run.mapM_congr (List.forall₂_same.mpr hNodes)
    rw [follow, follow, hMarkups]
  | template text args =>
    have hAgree := hTemplate text args rfl
    have hFragments :
        args.mapM (fragmentWithin first room) = args.mapM (fragmentWithin second room) :=
      Run.mapM_congr (List.forall₂_same.mpr fun arg hArg =>
        hAgree.fragmentWithin_eq (hNodes arg hArg))
    rw [follow_template, follow_template, hFragments, hAgree.substitution]

/-- Under two settings with one depth limit, which agree if there is a template in the tree, the
runs of a tree are the same: they give the same notices, and then the same markup or failure. -/
theorem renderWithin_of_settings (hDepth : first.maxDepth = second.maxDepth) {room : Nat}
    {node : Node}
    (hTemplate : ∀ below, node.Reaches below → below.tag? = some .template →
      first.Agree second) :
    renderWithin first room node = renderWithin second room node := by
  induction room generalizing node with
  | zero => rw [renderWithin, renderWithin, hDepth]
  | succ room ih =>
    rw [renderWithin_succ, renderWithin_succ]
    cases hPlan : node.plan with
    | error error => rfl
    | ok plan =>
      have hHere : ∀ text args, plan = .template text args → first.Agree second := by
        rintro text args rfl
        exact hTemplate node (.self node) (Node.tag?_of_plan_template hPlan)
      have hBelow : ∀ below ∈ plan.nodes,
          renderWithin first room below = renderWithin second room below := by
        intro below hMem
        rw [Node.nodes_of_plan hPlan] at hMem
        exact ih fun other hReach => hTemplate other (.down hMem hReach)
      exact Plan.follow_of_settings hHere hBelow node

end

/-! ## Two runs -/

theorem convertAs_outcome {settings : Settings} {style : MathStyle} {node : Node} :
    (convertAs settings style node).outcome =
      (render settings node).outcome.map fun raw => wrap style (finish settings raw) := by
  rw [convertAs]
  cases hRaw : (render settings node).outcome with
  | error error => rw [Run.bind_of_error hRaw]; rfl
  | ok raw => rw [Run.outcome_bind_of_ok hRaw]; rfl

/-- Under settings that agree, which may differ in the style of the delimiters and the heading of an
answer, a tree has the same run of raw markup, and its conversions fail with the same failure or
have the same finished markup between the delimiters of their styles; as a fragment, which is how a
template takes its arguments, it stands between inline delimiters under both. Trees without
templates have the same run of raw markup under all settings with one depth limit. -/
theorem render_of_settings :
    (∀ first second : Settings, first.Agree second → ∀ node : Node,
      render first node = render second node ∧
        (convert first node).notices = (convert second node).notices ∧
        ((∃ error, (convert first node).outcome = .error error ∧
            (convert second node).outcome = .error error) ∨
          ∃ inner, (convert first node).outcome = .ok (wrap first.mathStyle inner) ∧
            (convert second node).outcome = .ok (wrap second.mathStyle inner) ∧
            (fragment first node).outcome = .ok (wrap .inline inner) ∧
            (fragment second node).outcome = .ok (wrap .inline inner))) ∧
    ∀ first second : Settings, first.maxDepth = second.maxDepth → ∀ node : Node,
      (∀ below, node.Reaches below → below.tag? ≠ some .template) →
        render first node = render second node := by
  constructor
  · intro first second hAgree node
    have hRender : render first node = render second node := by
      rw [render, render, hAgree.maxDepth]
      exact renderWithin_of_settings hAgree.maxDepth fun _ _ _ => hAgree
    have hFinish : finish first = finish second := by
      funext raw
      exact Except.ok.inj (congrArg Run.outcome (hAgree.finished_eq raw))
    refine ⟨hRender, ?_, ?_⟩
    · rw [convert, convert, convertAs, convertAs, hRender]
      cases hRaw : (render second node).outcome with
      | error error => rw [Run.bind_of_error hRaw, Run.bind_of_error hRaw]
      | ok raw =>
        rw [Run.bind_of_ok hRaw, Run.bind_of_ok hRaw]
        have hNotices := congrArg Run.notices (hAgree.finished_eq raw)
        exact congrArg (fun notices => _ ++ (notices ++ [])) hNotices
    · simp only [convert, fragment, convertAs_outcome, hRender, hFinish]
      cases (render second node).outcome with
      | error error => exact .inl ⟨error, rfl, rfl⟩
      | ok raw => exact .inr ⟨finish second raw, rfl, rfl, rfl, rfl⟩
  · intro first second hDepth node hNone
    rw [render, render, hDepth]
    exact renderWithin_of_settings hDepth fun below hReach hTag => absurd hTag (hNone below hReach)

/-- The square of a half of a glyph. -/
def glyphSquare : Node :=
  .ofChildren "pow".toList [.ofChildren "bracket".toList [.ofChildren "frac".toList
    [.leaf "var".toList (.text "π".toList), .leaf "const".toList (.text "2".toList)]],
    .leaf "const".toList (.text "2".toList)]

/-- A template that names its argument twice. -/
def namedTwice : Node :=
  .ofChildren "localized_text".toList [.leaf "string".toList (.text []),
    .leaf "string".toList (.text []), .leaf "string".toList (.text "ARG1 or ARG1".toList),
    glyphSquare]

/-- Settings of which each differs from its default, but for the style and the heading. -/
def choices : Settings where
  maxDepth := 8
  substitution := .all
  displayFractions := true
  pipeSizing := .off

/-- The same settings with another style and heading. -/
def otherChoices : Settings :=
  { choices with mathStyle := .display, answerHeader := "Answer".toList }

/-- The markup of `namedTwice` under both, without delimiters. -/
def namedTwiceMarkup : Text :=
  let square := "\\left(\\dfrac\x7b\\pi \x7d\x7b2\x7d\\right)^\x7b2\x7d".toList
  square ++ "\\text\x7b or \x7d".toList ++ square

theorem render_of_settings_namedTwice :
    choices.Agree otherChoices ∧ render choices namedTwice = render otherChoices namedTwice ∧
      (convert choices namedTwice).outcome = .ok (wrap .inline namedTwiceMarkup) ∧
      (convert otherChoices namedTwice).outcome = .ok (wrap .display namedTwiceMarkup) ∧
      (∀ below, glyphSquare.Reaches below → below.tag? ≠ some .template) ∧
      render { maxDepth := 8 } glyphSquare = render otherChoices glyphSquare := by
  have hAgree : choices.Agree otherChoices := ⟨rfl, rfl, rfl, rfl⟩
  have hNone : ∀ below ∈ glyphSquare.visits, below.tag? ≠ some .template := by decide +kernel
  have hPlain : ∀ below, glyphSquare.Reaches below → below.tag? ≠ some .template :=
    fun below hReach => hNone below (Node.mem_visits_of_reaches hReach)
  exact ⟨hAgree, (render_of_settings.1 choices otherChoices hAgree namedTwice).1,
    by decide +kernel, by decide +kernel, hPlain,
    render_of_settings.2 { maxDepth := 8 } otherChoices rfl glyphSquare hPlain⟩

end Formulary
