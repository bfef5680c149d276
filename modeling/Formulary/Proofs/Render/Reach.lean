import Formulary.Proofs.Render.Depth

/-!
# What a rendered tree is made of

`Node.Reaches` relates a tree to the nodes that are rendered in it, and `Node.reads` lists the texts
that the layout of a node takes from literals.

* `mem_visits_of_reaches`: every node that is rendered is one of those whose shape is checked;
* `exists_of_renderWithin_error`: a tree that is not too deep fails with the failure of the plan of
  a node in it;
* `MarkupRule.holds`: what every layout passes on from the markup of its operands to its own markup
  holds for the markup of every tree.
-/

namespace Formulary

namespace Node

/-- A node is rendered when a tree is. -/
inductive Reaches : Node → Node → Prop
  | self (node : Node) : Reaches node node
  | down {root child node : Node} (hChild : child ∈ root.visited) (h : Reaches child node) :
    Reaches root node

/-- The texts of literals that go into the markup of a node: its own value, the digits of a
repeating decimal and their count, or the text of a template. -/
def reads (node : Node) : List Text :=
  match node.tag? with
  | none => []
  | some .repeating => (node.children.take 2).filterMap text?
  | some .template => ((node.children[2]?).bind text?).toList
  | some tag => if tag.needsValue then node.text?.toList else []

/-! ## The nodes of a tree -/

/-- Every node that is rendered is one of the tree. -/
theorem mem_visits_of_reaches {root node : Node} (h : root.Reaches node) : node ∈ root.visits := by
  induction h with
  | self node => exact node.mem_visits_self
  | down hChild _ ih => exact mem_visits.mpr (.inr ⟨_, mem_of_mem_visited hChild, ih⟩)

theorem mem_visits_of_mem_children {root node child : Node} (hNode : node ∈ root.visits)
    (hChild : child ∈ node.children) : child ∈ root.visits :=
  mem_visits_trans hNode (mem_visits.mpr (.inr ⟨child, .inl hChild, child.mem_visits_self⟩))

/-- The texts that are read are those of literals of the tree. -/
theorem exists_of_mem_reads {root node : Node} (h : root.Reaches node) {text : Text}
    (hText : text ∈ node.reads) : ∃ owner ∈ root.visits, owner.text? = some text := by
  have hNode := mem_visits_of_reaches h
  unfold reads at hText
  split at hText
  · cases hText
  · obtain ⟨child, hChild, hOwn⟩ := List.mem_filterMap.mp hText
    exact ⟨child, mem_visits_of_mem_children hNode (List.mem_of_mem_take hChild), hOwn⟩
  · obtain ⟨child, hChild, hOwn⟩ := Option.bind_eq_some_iff.mp (Option.mem_toList.mp hText)
    exact ⟨child, mem_visits_of_mem_children hNode (List.mem_of_getElem? hChild), hOwn⟩
  · split at hText
    · exact ⟨node, hNode, Option.mem_toList.mp hText⟩
    · cases hText

/-! ## Plans by layout -/

theorem plan_of_tag?_eq_none {node : Node} (h : node.tag? = none) : node.plan = .ok .dump := by
  rw [plan, h]

theorem plan_eq_ok_iff {node : Node} {tag : Tag} (h : node.tag? = some tag) {plan : Plan} :
    node.plan = .ok plan ↔ tag.check node = .ok () ∧ node.planOf tag = .ok plan := by
  rw [Node.plan, h]
  constructor
  · intro hPlan
    obtain ⟨⟨⟩, hCheck, hPlanOf⟩ := exists_of_bind_ok hPlan
    exact ⟨hCheck, hPlanOf⟩
  · rintro ⟨hCheck, hPlanOf⟩
    simp only [hCheck, hPlanOf]
    rfl

/-- The plan of a node with a tag writes markup, asks for operands, or fills a template. -/
theorem planOf_cases {node : Node} {tag : Tag} {plan : Plan} (h : node.planOf tag = .ok plan) :
    (∃ markup, plan = .write markup) ∨ (∃ nodes assemble, plan = .operands nodes assemble) ∨
      Layout.ofTag tag = .template ∧ ∃ text, plan = .template text node.templateArgs := by
  unfold planOf at h
  split at h
  · obtain ⟨text, -, hPlan⟩ := exists_of_bind_ok h
    cases hPlan
    exact .inl ⟨_, rfl⟩
  · cases h
    exact .inr (.inl ⟨_, _, rfl⟩)
  · cases h
    exact .inr (.inl ⟨_, _, rfl⟩)
  · obtain ⟨markup, -, hPlan⟩ := exists_of_bind_ok h
    cases hPlan
    exact .inl ⟨_, rfl⟩
  · rename_i hLayout
    obtain ⟨text, -, hPlan⟩ := exists_of_bind_ok h
    cases hPlan
    exact .inr (.inr ⟨hLayout, _, rfl⟩)

theorem arity_le_of_check {tag : Tag} {node : Node} (h : tag.check node = .ok ()) :
    tag.arity ≤ node.children.length := by
  unfold Tag.check at h
  split at h
  · cases h
  · exact Nat.not_lt.mp ‹_›

theorem needText_eq_ok {tag : Tag} {node : Node} {text : Text} (h : node.needText tag = .ok text) :
    node.text? = some text := by
  unfold needText at h
  split at h
  · cases h
    assumption
  · cases h

theorem needChildText_eq_ok {tag : Tag} {node : Node} {index : Nat} {text : Text}
    (h : node.needChildText tag index = .ok text) :
    (node.children[index]?).bind text? = some text := by
  unfold needChildText at h
  split at h
  · rename_i child hChild
    rw [hChild, Option.bind_some]
    exact needText_eq_ok h
  · cases h

/-- A repeating decimal writes the texts of its first two children. -/
theorem repeating_eq_ok {node : Node} {markup : Text} (h : node.repeating = .ok markup) :
    ∃ decimal repeats count, (node.children[0]?).bind text? = some decimal ∧
      (node.children[1]?).bind text? = some repeats ∧ Repeating.count? repeats = some count ∧
      Repeating.format decimal count = .ok markup := by
  obtain ⟨decimal, hDecimal, hRest⟩ := exists_of_bind_ok h
  obtain ⟨repeats, hRepeats, hFormat⟩ := exists_of_bind_ok hRest
  split at hFormat
  · rename_i count hCount
    exact ⟨decimal, repeats, count, needChildText_eq_ok hDecimal, needChildText_eq_ok hRepeats,
      hCount, hFormat⟩
  · cases hFormat

end Node

/-- With more room a tree has the same markup. -/
theorem renderWithin_mono {settings : Settings} {room more : Nat} {node : Node} {raw : Text}
    (hLe : room ≤ more) (h : (renderWithin settings room node).outcome = .ok raw) :
    (renderWithin settings more node).outcome = .ok raw := by
  obtain ⟨least, run, hThreshold, -, -⟩ := hasThreshold_render settings node
  have hLeast : least ≤ room := by
    by_contra hLess
    have hDeep := hThreshold.below settings.maxDepth room (by omega)
    cases h.symm.trans hDeep
  have hRoom : renderWithin settings room node = run :=
    hThreshold.above settings.maxDepth room hLeast
  have hMore : renderWithin settings more node = run :=
    hThreshold.above settings.maxDepth more (Nat.le_trans hLeast hLe)
  rw [hMore, ← hRoom, h]

/-! ## Failures -/

theorem exists_of_follow_error {settings : Settings} {room : Nat} {node : Node} {plan : Plan}
    {error : RenderError}
    (h : (plan.follow (fun run => run) settings (renderWithin settings room)
      (fragmentWithin settings room) node).outcome = .error error) :
    ∃ below ∈ plan.nodes, (renderWithin settings room below).outcome = .error error := by
  cases plan with
  | write markup => cases h
  | dump => cases h
  | operands nodes assemble =>
    rcases Run.outcome_bind_error h with hNodes | ⟨markups, -, hPure⟩
    · exact Run.exists_of_outcome_mapM_error hNodes
    · cases hPure
  | template text args =>
    rw [Plan.follow_template] at h
    rcases Run.outcome_bind_error h with hArgs | ⟨fragments, -, hPure⟩
    · obtain ⟨arg, hArg, hFragment⟩ := Run.exists_of_outcome_mapM_error hArgs
      rcases Run.outcome_bind_error hFragment with hRaw | ⟨raw, -, hDelimited⟩
      · exact ⟨arg, hArg, hRaw⟩
      · cases hDelimited
    · cases hPure

/-- A tree that is not too deep fails with the failure of a node's plan. -/
theorem exists_of_renderWithin_error {settings : Settings} {room : Nat} {node : Node}
    {error : RenderError} (h : (renderWithin settings room node).outcome = .error error) :
    error = .depthExceeded settings.maxDepth ∨
      ∃ below, node.Reaches below ∧ below.plan = .error error := by
  induction room generalizing node with
  | zero =>
    cases h
    exact .inl rfl
  | succ room ih =>
    rw [renderWithin_succ] at h
    rcases Run.outcome_bind_error h with hPlan | ⟨plan, hPlan, hFollow⟩
    · exact .inr ⟨node, .self node, hPlan⟩
    · obtain ⟨child, hChild, hError⟩ := exists_of_follow_error hFollow
      rw [Node.nodes_of_plan hPlan] at hChild
      refine (ih hError).imp_right ?_
      rintro ⟨below, hBelow, hError⟩
      exact ⟨below, .down hChild hBelow, hError⟩

/-- A node of a kind without a tag is dumped, and nothing below it is looked at. -/
theorem render_of_tag?_eq_none {settings : Settings} {node : Node} (hTag : node.tag? = none)
    (hDepth : 0 < settings.maxDepth) :
    render settings node = ⟨[.unknownKind node.kind], .ok node.dump⟩ := by
  obtain ⟨room, hRoom⟩ := Nat.exists_eq_add_one_of_ne_zero (Nat.ne_zero_of_lt hDepth)
  rw [render, hRoom, renderWithin_succ, Node.plan_of_tag?_eq_none hTag]
  rfl

/-! ## Markup -/

/-- What the layouts of fine nodes pass on to the markup of a node from the markup of the operands
that they read. -/
structure MarkupRule (settings : Settings) (fine : Node → Prop) (P : Node → Text → Prop) :
    Prop where
  value {node : Node} {tag : Tag} {form : ValueForm} {text : Text} (hFine : fine node)
    (hTag : node.tag? = some tag) (hLayout : Layout.ofTag tag = .value form)
    (hText : text ∈ node.reads) : P node (form.write text)
  repeating {node : Node} {decimal markup : Text} {count : Nat} (hFine : fine node)
    (hTag : node.tag? = some .repeating) (hDecimal : decimal ∈ node.reads)
    (hMarkup : Repeating.format decimal count = .ok markup) : P node markup
  fixed {node : Node} {tag : Tag} {pieces : List Piece} {markups : List Text} (hFine : fine node)
    (hTag : node.tag? = some tag) (hLayout : Layout.ofTag tag = .fixed pieces)
    (hMarkups : List.Forall₂ P node.visited markups) :
    P node (fillPieces pieces (node.visited.zip markups))
  series {node : Node} {tag : Tag} {opening separator closing : Text} {markups : List Text}
    (hFine : fine node) (hTag : node.tag? = some tag)
    (hLayout : Layout.ofTag tag = .series opening separator closing)
    (hMarkups : List.Forall₂ P node.visited markups) :
    P node (opening ++ separator.intercalate markups ++ closing)
  template {node : Node} {text : Text} {raws : List Text} (hFine : fine node)
    (hTag : node.tag? = some .template) (hText : text ∈ node.reads)
    (hRaws : List.Forall₂ (fun arg raw => P arg raw ∧ (render settings arg).outcome = .ok raw)
      node.visited raws) :
    P node (localize (Placeholder.fill settings.substitution
      (raws.map fun raw => Markup.wrap .inline (Markup.finish settings raw)) text))
  dump {node : Node} (hFine : fine node) (hTag : node.tag? = none) : P node node.dump

theorem Tag.mem_all (tag : Tag) : tag ∈ Tag.all := by cases tag <;> decide

theorem Layout.needsValue_of_value {tag : Tag} {form : ValueForm}
    (h : Layout.ofTag tag = .value form) : tag.needsValue := by
  have hAll : ∀ tag ∈ Tag.all, (∃ form ∈ [.words, .unit, .variable, .constant],
      Layout.ofTag tag = .value form) → tag.needsValue := by decide +kernel
  exact hAll tag tag.mem_all ⟨form, by cases form <;> decide, h⟩

theorem Layout.eq_repeating {tag : Tag} (h : Layout.ofTag tag = .repeating) : tag = .repeating := by
  have hAll : ∀ tag ∈ Tag.all, Layout.ofTag tag = .repeating → tag = .repeating := by
    decide +kernel
  exact hAll tag tag.mem_all h

theorem Layout.eq_template {tag : Tag} (h : Layout.ofTag tag = .template) : tag = .template := by
  have hAll : ∀ tag ∈ Tag.all, Layout.ofTag tag = .template → tag = .template := by
    decide +kernel
  exact hAll tag tag.mem_all h

/-- A piece is filled with markup of its own, with that of an operand or with that of a group. -/
theorem Piece.forall_fill {P : Text → Prop} {operands : List (Node × Text)} {piece : Piece}
    (hEmpty : P (piece.fill [])) (hOperand : ∀ operand ∈ operands, P operand.2)
    (hGroup : ∀ operand ∈ operands, P (operand.1.group operand.2)) : P (piece.fill operands) := by
  cases piece with
  | text markup => exact hEmpty
  | operand index =>
    cases hIndex : operands[index]? with
    | none =>
      simp only [Piece.fill, hIndex]
      exact hEmpty
    | some operand =>
      simp only [Piece.fill, hIndex]
      exact hOperand operand (List.mem_of_getElem? hIndex)
  | grouped index =>
    cases hIndex : operands[index]? with
    | none =>
      simp only [Piece.fill, hIndex]
      exact hEmpty
    | some operand =>
      simp only [Piece.fill, hIndex]
      exact hGroup operand (List.mem_of_getElem? hIndex)

/-- What two rows with a separator between them have when each has it, all rows have. -/
theorem forall_intercalate {P : Text → Prop} {separator : Text} (hNil : P [])
    (hSeparator : ∀ {first second}, P first → P second → P (first ++ separator ++ second))
    {markups : List Text} (h : ∀ markup ∈ markups, P markup) :
    P (separator.intercalate markups) := by
  induction markups with
  | nil => exact hNil
  | cons markup rest ih =>
    have hHead := h markup List.mem_cons_self
    cases rest with
    | nil =>
      rw [List.intercalate_singleton]
      exact hHead
    | cons next rest =>
      rw [List.intercalate_cons_cons]
      exact hSeparator hHead (ih fun other hOther => h other (List.mem_cons_of_mem _ hOther))

/-- The markup of a layout around its operands. -/
def Layout.words : Layout → List Text
  | .fixed pieces => pieces.map (Piece.fill [])
  | .series opening separator closing => [opening, separator, closing]
  | _ => []

theorem Node.mem_reads_of_needsValue {node : Node} {tag : Tag} {text : Text}
    (hTag : node.tag? = some tag) (hNeeds : tag.needsValue) (hText : node.text? = some text) :
    text ∈ node.reads := by
  rw [Node.reads, hTag, hText]
  split
  · contradiction
  · rename_i hRepeating
    cases hRepeating
    cases hNeeds
  · rename_i hTemplate
    cases hTemplate
    cases hNeeds
  · rename_i other _ _ hOther
    cases hOther
    rw [if_pos hNeeds]
    exact List.mem_singleton.mpr rfl

theorem Node.mem_reads_of_repeating {node : Node} {text : Text} (hTag : node.tag? = some .repeating)
    (hText : (node.children[0]?).bind text? = some text) : text ∈ node.reads := by
  obtain ⟨child, hChild, hOwn⟩ := Option.bind_eq_some_iff.mp hText
  rw [Node.reads, hTag]
  refine List.mem_filterMap.mpr ⟨child, ?_, hOwn⟩
  cases hChildren : node.children with
  | nil => simp [hChildren] at hChild
  | cons first rest =>
    rw [hChildren, List.getElem?_cons_zero] at hChild
    cases hChild
    exact List.mem_cons_self

theorem Node.mem_reads_of_template {node : Node} {text : Text} (hTag : node.tag? = some .template)
    (hText : (node.children[2]?).bind text? = some text) : text ∈ node.reads := by
  rw [Node.reads, hTag]
  exact Option.mem_toList.mpr hText

/-- The arguments of a template stand in its text as finished markup between delimiters. -/
theorem exists_of_mapM_fragment {settings : Settings} {room : Nat} {args : List Node}
    {fragments : List Text} {P : Node → Text → Prop}
    (h : (args.mapM (fragmentWithin settings room)).outcome = .ok fragments)
    (hP : ∀ arg ∈ args, ∀ raw, (renderWithin settings room arg).outcome = .ok raw → P arg raw) :
    ∃ raws, List.Forall₂ P args raws ∧
      fragments = raws.map fun raw => Markup.wrap .inline (Markup.finish settings raw) := by
  have hFragments : List.Forall₂ (fun arg fragment => ∃ raw, P arg raw ∧
      fragment = Markup.wrap .inline (Markup.finish settings raw)) args fragments := by
    refine Run.forall₂_of_outcome_mapM h fun arg hArg fragment hFragment => ?_
    obtain ⟨raw, hRaw, hDelimited⟩ := Run.exists_of_outcome_bind_ok hFragment
    cases hDelimited
    exact ⟨raw, hP arg hArg raw hRaw, rfl⟩
  clear h hP
  induction hFragments with
  | nil => exact ⟨[], .nil, rfl⟩
  | cons hHead _ ih =>
    obtain ⟨raw, hRaw, rfl⟩ := hHead
    obtain ⟨raws, hRaws, rfl⟩ := ih
    exact ⟨raw :: raws, .cons hRaw hRaws, rfl⟩

/-- The markup of a rendered tree has what its layouts pass on. -/
theorem MarkupRule.holds {settings : Settings} {fine : Node → Prop} {P : Node → Text → Prop}
    (rule : MarkupRule settings fine P) {room : Nat} (hRoom : room ≤ settings.maxDepth)
    {node : Node} {raw : Text} (hFine : ∀ below, node.Reaches below → fine below)
    (hRaw : (renderWithin settings room node).outcome = .ok raw) : P node raw := by
  induction room generalizing node raw with
  | zero => cases hRaw
  | succ room ih =>
    rw [renderWithin_succ] at hRaw
    obtain ⟨plan, hPlan, hFollow⟩ := Run.exists_of_outcome_bind_ok hRaw
    have hHere : fine node := hFine node (.self node)
    have hNodes : plan.nodes = node.visited := Node.nodes_of_plan hPlan
    have hLess : room ≤ settings.maxDepth := Nat.le_of_succ_le hRoom
    have hBelow : ∀ child ∈ plan.nodes, ∀ markup,
        (renderWithin settings room child).outcome = .ok markup → P child markup := by
      intro child hChild markup hMarkup
      rw [hNodes] at hChild
      exact ih hLess (fun below hReach => hFine below (.down hChild hReach)) hMarkup
    cases hTag : node.tag? with
    | none =>
      cases (Node.plan_of_tag?_eq_none hTag).symm.trans hPlan
      cases hFollow
      exact rule.dump hHere hTag
    | some tag =>
      obtain ⟨-, hPlanOf⟩ := (Node.plan_eq_ok_iff hTag).mp hPlan
      unfold Node.planOf at hPlanOf
      split at hPlanOf
      · rename_i form hLayout
        obtain ⟨text, hText, hWrite⟩ := exists_of_bind_ok hPlanOf
        cases hWrite
        cases hFollow
        exact rule.value hHere hTag hLayout
          (Node.mem_reads_of_needsValue hTag (Layout.needsValue_of_value hLayout)
            (Node.needText_eq_ok hText))
      · rename_i pieces hLayout
        cases hPlanOf
        obtain ⟨markups, hMarkups, hFill⟩ := Run.exists_of_outcome_bind_ok hFollow
        cases hFill
        have hVisited : node.children.take (operandCount pieces) = node.visited := hNodes
        rw [hVisited]
        exact rule.fixed hHere hTag hLayout
          (hNodes ▸ Run.forall₂_of_outcome_mapM hMarkups hBelow)
      · rename_i opening separator closing hLayout
        cases hPlanOf
        obtain ⟨markups, hMarkups, hFill⟩ := Run.exists_of_outcome_bind_ok hFollow
        cases hFill
        exact rule.series hHere hTag hLayout
          (hNodes ▸ Run.forall₂_of_outcome_mapM hMarkups hBelow)
      · rename_i hLayout
        obtain rfl := Layout.eq_repeating hLayout
        obtain ⟨markup, hMarkup, hWrite⟩ := exists_of_bind_ok hPlanOf
        cases hWrite
        cases hFollow
        obtain ⟨decimal, repeats, count, hDecimal, -, -, hFormat⟩ := Node.repeating_eq_ok hMarkup
        exact rule.repeating hHere hTag (Node.mem_reads_of_repeating hTag hDecimal) hFormat
      · rename_i hLayout
        obtain rfl := Layout.eq_template hLayout
        obtain ⟨text, hText, hTemplate⟩ := exists_of_bind_ok hPlanOf
        cases hTemplate
        rw [Plan.follow_template] at hFollow
        obtain ⟨fragments, hFragments, hFill⟩ := Run.exists_of_outcome_bind_ok hFollow
        cases hFill
        obtain ⟨raws, hRaws, rfl⟩ := exists_of_mapM_fragment hFragments
          fun arg hArg raw hRaw =>
            And.intro (hBelow arg hArg raw hRaw) (renderWithin_mono hLess hRaw)
        exact rule.template hHere hTag (Node.mem_reads_of_template hTag
          (Node.needChildText_eq_ok hText)) (hNodes ▸ hRaws)

end Formulary
