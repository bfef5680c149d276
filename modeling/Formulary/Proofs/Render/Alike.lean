import Formulary.Proofs.Render.Reach

/-!
# What rendering reads

Two trees are alike when they agree on everything that is read when they are rendered: the kinds of
the nodes that are visited, the texts that their layouts take from literals, and trees of kinds
without a tag as a whole. Every visited node must have the children that its layout asks for, for
the failure of one that lacks some tells how many it has.

* `renderWithin_of_alike`: alike trees are rendered by one and the same run, level by level;
* `Node.alike_trimmed`: a tree is alike to what is left of it when all else is dropped.
-/

namespace Formulary

theorem eq_of_toList_eq {α : Type} {first second : Option α}
    (h : first.toList = second.toList) : first = second := by
  cases first <;> cases second <;> simp_all

namespace Node

/-- Two trees agree on what is read when they are rendered. -/
inductive Alike : Node → Node → Prop
  /-- A tree of a kind without a tag is dumped and read as a whole. -/
  | dumped {node : Node} (hTag : node.tag? = none) : Alike node node
  /-- Nodes of one kind whose layouts read the same texts from literals, above trees that are
  alike, one by one. -/
  | known {first second : Node} {tag : Tag} (hKind : first.kind = second.kind)
    (hTag : first.tag? = some tag) (hFirst : tag.arity ≤ first.children.length)
    (hSecond : tag.arity ≤ second.children.length) (hReads : first.reads = second.reads)
    (hVisited : List.Forall₂ Alike first.visited second.visited) : Alike first second

theorem tag?_congr {first second : Node} (hKind : first.kind = second.kind) :
    first.tag? = second.tag? := by
  rw [tag?, tag?, hKind]

theorem Alike.kind_eq {first second : Node} (h : first.Alike second) :
    first.kind = second.kind := by
  cases h with
  | dumped => rfl
  | known hKind => exact hKind

theorem isLoose_congr {first second : Node} (hKind : first.kind = second.kind) :
    first.isLoose = second.isLoose := by
  rw [isLoose, isLoose, tag?_congr hKind]

theorem group_congr {first second : Node} (hKind : first.kind = second.kind) (markup : Text) :
    first.group markup = second.group markup := by
  rw [group, group, isLoose_congr hKind]

/-! ## Texts of literals -/

theorem reads_of_needsValue {node : Node} {tag : Tag} (hTag : node.tag? = some tag)
    (hNeeds : tag.needsValue) : node.reads = node.text?.toList := by
  rw [reads, hTag]
  cases tag <;> first | rfl | cases hNeeds

theorem reads_of_template {node : Node} (hTag : node.tag? = some .template) :
    node.reads = ((node.children[2]?).bind text?).toList := by
  rw [reads, hTag]

theorem needText_congr {tag : Tag} {first second : Node} (h : first.text? = second.text?) :
    first.needText tag = second.needText tag := by
  rw [needText, needText, h]

theorem needChildText_eq {tag : Tag} {node : Node} {index : Nat}
    (hIndex : index < node.children.length) :
    node.needChildText tag index =
      match (node.children[index]?).bind text? with
      | some text => .ok text
      | none => .error (.missingValue tag) := by
  rw [needChildText, List.getElem?_eq_getElem hIndex]
  rfl

/-- The markup of a repeating decimal with the two texts that it reads. -/
def repeatingOf : List Text → Except RenderError Text
  | [decimal, repeats] =>
    match Repeating.count? repeats with
    | some count => Repeating.format decimal count
    | none => .error (.invalidLiteral .repeating repeats)
  | _ => .error (.missingValue .repeating)

theorem repeating_eq {node : Node} (hTag : node.tag? = some .repeating)
    (hArity : 2 ≤ node.children.length) : node.repeating = repeatingOf node.reads := by
  rw [repeating, needChildText_eq (Nat.lt_of_lt_of_le Nat.zero_lt_two hArity),
    needChildText_eq hArity, reads, hTag]
  rcases hChildren : node.children with _ | ⟨digits, _ | ⟨period, rest⟩⟩
  · rw [hChildren] at hArity
    exact absurd hArity (Nat.not_succ_le_zero 1)
  · rw [hChildren] at hArity
    exact absurd hArity (Nat.not_succ_le_self 1)
  · simp only [List.getElem?_cons_zero, List.getElem?_cons_succ, Option.bind_some,
      List.take_succ_cons, List.take_zero, List.filterMap_cons, List.filterMap_nil]
    cases digits.text? <;> cases period.text? <;> rfl

theorem check_congr {first second : Node} {tag : Tag} (hFirstTag : first.tag? = some tag)
    (hSecondTag : second.tag? = some tag) (hFirst : tag.arity ≤ first.children.length)
    (hSecond : tag.arity ≤ second.children.length) (hReads : first.reads = second.reads) :
    tag.check first = tag.check second := by
  rw [Tag.check, Tag.check, if_neg (Nat.not_lt.mpr hFirst), if_neg (Nat.not_lt.mpr hSecond)]
  cases hNeeds : tag.needsValue with
  | false => rfl
  | true =>
    rw [reads_of_needsValue hFirstTag hNeeds, reads_of_needsValue hSecondTag hNeeds] at hReads
    have hNone := congrArg Option.isNone (eq_of_toList_eq hReads)
    rw [text?, text?, Option.isNone_map, Option.isNone_map] at hNone
    rw [hNone]

end Node

/-! ## Operands -/

theorem Run.mapM_congr {ε α β : Type} {f g : α → Run ε β} {items others : List α}
    (h : List.Forall₂ (fun item other => f item = g other) items others) :
    items.mapM f = others.mapM g := by
  induction h with
  | nil => rfl
  | cons hHead _ ih => rw [List.mapM_cons, List.mapM_cons, hHead, ih]

/-- Of an operand a piece shows the markup, and a group besides whether it is loose. -/
theorem Piece.fill_congr {first second : List (Node × Text)}
    (h : first.map (Prod.map Node.isLoose id) = second.map (Prod.map Node.isLoose id))
    (piece : Piece) : piece.fill first = piece.fill second := by
  have hIndex : ∀ index : Nat, (first[index]?).map (Prod.map Node.isLoose id) =
      (second[index]?).map (Prod.map Node.isLoose id) := by
    intro index
    rw [← List.getElem?_map, ← List.getElem?_map, h]
  cases piece with
  | text markup => rfl
  | operand index =>
    have hMarkup := congrArg (Option.map Prod.snd) (hIndex index)
    simp only [Option.map_map] at hMarkup
    exact congrArg (fun markup => Option.getD markup []) hMarkup
  | grouped index =>
    have hGroup := congrArg (Option.map fun operand : Bool × Text =>
      if operand.1 then '(' :: operand.2 ++ [')'] else operand.2) (hIndex index)
    simp only [Option.map_map] at hGroup
    exact congrArg (fun markup => Option.getD markup []) hGroup

theorem fillPieces_congr {pieces : List Piece} {nodes others : List Node}
    (h : List.Forall₂ Node.Alike nodes others) (markups : List Text) :
    fillPieces pieces (nodes.zip markups) = fillPieces pieces (others.zip markups) := by
  have hLoose : nodes.map Node.isLoose = others.map Node.isLoose := by
    induction h with
    | nil => rfl
    | cons hHead _ ih =>
      rw [List.map_cons, List.map_cons, Node.isLoose_congr hHead.kind_eq, ih]
  have hZip : (nodes.zip markups).map (Prod.map Node.isLoose id) =
      (others.zip markups).map (Prod.map Node.isLoose id) := by
    rw [← List.zip_map_left, ← List.zip_map_left, hLoose]
  rw [fillPieces, fillPieces]
  exact List.flatMap_congr fun piece _ => Piece.fill_congr hZip piece

/-! ## Plans -/

/-- Two plans ask for the same, of trees that are alike. -/
inductive Plan.Alike : Plan → Plan → Prop
  | write (markup : Text) : Alike (.write markup) (.write markup)
  | operands {nodes others : List Node} {assemble assembleOther : List Text → Text}
    (hNodes : List.Forall₂ Node.Alike nodes others)
    (hAssemble : ∀ markups, assemble markups = assembleOther markups) :
    Alike (.operands nodes assemble) (.operands others assembleOther)
  | template (text : Text) {args others : List Node} (hArgs : List.Forall₂ Node.Alike args others) :
    Alike (.template text args) (.template text others)

/-- Plans that ask for the same come to the same when trees that are alike do. -/
theorem Plan.follow_congr {settings : Settings} {visit fragment : Node → Run RenderError Text}
    {plan other : Plan} (h : plan.Alike other)
    (hVisit : ∀ {below other : Node}, below.Alike other → visit below = visit other)
    (hFragment : ∀ {arg other : Node}, arg.Alike other → fragment arg = fragment other)
    (first second : Node) :
    plan.follow (fun run => run) settings visit fragment first =
      other.follow (fun run => run) settings visit fragment second := by
  cases h with
  | write markup => rfl
  | operands hNodes hAssemble =>
    have hMarkups := Run.mapM_congr (hNodes.imp fun _ _ hAlike => hVisit hAlike)
    rw [follow, follow, hMarkups]
    simp only [hAssemble]
  | template text hArgs =>
    have hFragments := Run.mapM_congr (hArgs.imp fun _ _ hAlike => hFragment hAlike)
    rw [follow_template, follow_template, hFragments]

namespace Node

theorem tag_visited_eq {node : Node} {tag : Tag} (hTag : node.tag? = some tag) :
    tag.visited node = node.visited := by
  rw [visited, hTag]

/-- Nodes that are alike fail alike, or have plans that ask for the same. -/
theorem planOf_congr {first second : Node} {tag : Tag} (hFirstTag : first.tag? = some tag)
    (hSecondTag : second.tag? = some tag) (hFirst : tag.arity ≤ first.children.length)
    (hSecond : tag.arity ≤ second.children.length) (hReads : first.reads = second.reads)
    (hVisited : List.Forall₂ Alike first.visited second.visited) :
    (∃ error, first.planOf tag = .error error ∧ second.planOf tag = .error error) ∨
      ∃ plan other, first.planOf tag = .ok plan ∧ second.planOf tag = .ok other ∧
        plan.Alike other := by
  rw [← tag_visited_eq hFirstTag, ← tag_visited_eq hSecondTag, Tag.visited_eq,
    Tag.visited_eq] at hVisited
  rw [planOf, planOf]
  cases hLayout : Layout.ofTag tag with
  | value form =>
    have hNeeds := Layout.needsValue_of_value hLayout
    rw [reads_of_needsValue hFirstTag hNeeds, reads_of_needsValue hSecondTag hNeeds] at hReads
    simp only [needText_congr (eq_of_toList_eq hReads)]
    cases second.needText tag with
    | error error => exact .inl ⟨error, rfl, rfl⟩
    | ok text => exact .inr ⟨_, _, rfl, rfl, .write (form.write text)⟩
  | fixed pieces =>
    simp only [hLayout, ← Layout.operandCount_eq hLayout] at hVisited
    exact .inr ⟨_, _, rfl, rfl, .operands hVisited fun markups => fillPieces_congr hVisited markups⟩
  | series opening separator closing =>
    simp only [hLayout] at hVisited
    exact .inr ⟨_, _, rfl, rfl, .operands hVisited fun markups => rfl⟩
  | repeating =>
    obtain rfl := Layout.eq_repeating hLayout
    simp only [repeating_eq hFirstTag hFirst, repeating_eq hSecondTag hSecond, hReads]
    cases repeatingOf second.reads with
    | error error => exact .inl ⟨error, rfl, rfl⟩
    | ok markup => exact .inr ⟨_, _, rfl, rfl, .write markup⟩
  | template =>
    obtain rfl := Layout.eq_template hLayout
    simp only [hLayout] at hVisited
    rw [reads_of_template hFirstTag, reads_of_template hSecondTag] at hReads
    rw [needChildText_eq hFirst, needChildText_eq hSecond, eq_of_toList_eq hReads]
    cases (second.children[2]?).bind text? with
    | none => exact .inl ⟨_, rfl, rfl⟩
    | some text => exact .inr ⟨_, _, rfl, rfl, .template text hVisited⟩

end Node

/-! ## Levels -/

/-- Alike trees are rendered by the same run: they give the same notices, and then the same markup
or the same failure. -/
theorem renderWithin_of_alike (settings : Settings) {room : Nat} {first second : Node}
    (h : first.Alike second) :
    renderWithin settings room first = renderWithin settings room second := by
  induction room generalizing first second with
  | zero => rfl
  | succ room ih =>
    have hFragment : ∀ {arg other : Node}, arg.Alike other →
        fragmentWithin settings room arg = fragmentWithin settings room other := by
      intro arg other hAlike
      rw [fragmentWithin, fragmentWithin, ih hAlike]
    rw [renderWithin_succ, renderWithin_succ]
    cases h with
    | dumped => rfl
    | @known _ _ tag hKind hFirstTag hFirst hSecond hReads hVisited =>
      have hSecondTag : second.tag? = some tag := (Node.tag?_congr hKind).symm.trans hFirstTag
      have hCheck := Node.check_congr hFirstTag hSecondTag hFirst hSecond hReads
      rw [Node.plan, Node.plan, hFirstTag, hSecondTag]
      simp only [hCheck]
      cases tag.check second with
      | error error => rfl
      | ok =>
        rcases Node.planOf_congr hFirstTag hSecondTag hFirst hSecond hReads hVisited with
          ⟨error, hPlan, hOther⟩ | ⟨plan, other, hPlan, hOther, hAlike⟩
        · simp only [hPlan, hOther]
          rfl
        · simp only [hPlan, hOther]
          exact Plan.follow_congr hAlike ih hFragment first second

/-! ## What is left of a tree -/

namespace Node

/-- Every visited node has the children that its layout asks for. -/
def IsFull (node : Node) : Prop :=
  ∀ below, node.Reaches below → ∀ tag, below.tag? = some tag → tag.arity ≤ below.children.length

theorem isFull_iff {node : Node} :
    node.IsFull ↔ (∀ tag, node.tag? = some tag → tag.arity ≤ node.children.length) ∧
      ∀ below ∈ node.visited, below.IsFull := by
  constructor
  · exact fun h => ⟨h node (.self node), fun below hMem other hReach => h other (.down hMem hReach)⟩
  · rintro ⟨hHere, hBelow⟩ other hReach
    cases hReach with
    | self => exact hHere
    | down hMem hRest => exact hBelow _ hMem other hRest

theorem isFull_of_visited {node : Node} {tag : Tag} {nodes : List Node}
    (hTag : node.tag? = some tag) (hArity : tag.arity ≤ node.children.length)
    (hVisited : node.visited = nodes) (hBelow : ∀ below ∈ nodes, below.IsFull) : node.IsFull := by
  refine isFull_iff.mpr ⟨fun other hOther => ?_, hVisited ▸ hBelow⟩
  cases hTag.symm.trans hOther
  exact hArity

/-- A node that keeps nothing but its value. -/
def valueAlone (node : Node) : Node := { kind := [], value := node.value }

/-- What is left of the children that are read for their values: both of a repeating decimal, and
the third of a template behind two that hold nothing. -/
def valued (node : Node) (tag : Tag) : List Node :=
  match tag with
  | .repeating => (node.children.take 2).map valueAlone
  | .template => { kind := [] } :: { kind := [] } :: ((node.children[2]?).map valueAlone).toList
  | _ => []

/-- The tree without what is not read: other children, other values, other arguments, and all but
the values of children that are read for these. -/
def trimmed (node : Node) : Node :=
  match node.tag? with
  | none => node
  | some tag =>
    { kind := node.kind
      value := if tag.needsValue then node.value else none
      children := node.valued tag ++ node.visited.attach.map fun below => trimmed below.1 }
termination_by sizeOf node
decreasing_by exact sizeOf_lt_of_mem_visited below.2

theorem trimmed_eq {node : Node} {tag : Tag} (hTag : node.tag? = some tag) :
    node.trimmed =
      { kind := node.kind
        value := if tag.needsValue then node.value else none
        children := node.valued tag ++ node.visited.map trimmed } := by
  rw [trimmed, hTag]
  simp only [List.attach_map_val]

theorem tag?_trimmed {node : Node} {tag : Tag} (hTag : node.tag? = some tag) :
    node.trimmed.tag? = some tag := by
  rw [trimmed_eq hTag]
  exact hTag

theorem visited_of_repeating {node : Node} (hTag : node.tag? = some .repeating) :
    node.visited = [] := by
  rw [visited, hTag]
  rfl

theorem visited_of_template {node : Node} (hTag : node.tag? = some .template) :
    node.visited = node.templateArgs := by
  rw [visited, hTag]
  rfl

section

variable {node : Node} {tag : Tag}

/-! Every other layout visits the first children, as many as it reads, and no value of a child. -/

theorem visited_of_ne (hTag : node.tag? = some tag) (hRepeating : tag ≠ .repeating)
    (hTemplate : tag ≠ .template) :
    node.visited = node.children.take (tag.reads node.children.length) := by
  rw [visited, hTag]
  cases tag <;> first | rfl | contradiction

theorem valued_of_ne (hRepeating : tag ≠ .repeating) (hTemplate : tag ≠ .template) :
    node.valued tag = [] := by
  cases tag <;> first | rfl | contradiction

theorem reads_of_ne (hTag : node.tag? = some tag) (hRepeating : tag ≠ .repeating)
    (hTemplate : tag ≠ .template) :
    node.reads = if tag.needsValue then node.text?.toList else [] := by
  rw [reads, hTag]
  cases tag <;> first | rfl | contradiction

theorem length_visited_of_ne (hTag : node.tag? = some tag) (hRepeating : tag ≠ .repeating)
    (hTemplate : tag ≠ .template) (hArity : tag.arity ≤ node.children.length) :
    node.visited.length = tag.reads node.children.length ∧
      tag.arity ≤ node.visited.length ∧
      tag.reads node.visited.length = node.visited.length := by
  have hVariadic : tag.isVariadic → tag.arity = 0 := by
    cases tag <;> first | exact fun _ => rfl | exact nofun
  rw [visited_of_ne hTag hRepeating hTemplate, List.length_take, Tag.reads]
  split
  · rename_i h
    rw [hVariadic h, Tag.reads, if_pos h]
    omega
  · rename_i h
    rw [Tag.reads, if_neg h]
    omega

end

/-! ## Trimming -/

theorem length_trimmed {node : Node} {tag : Tag} (hTag : node.tag? = some tag)
    (hArity : tag.arity ≤ node.children.length) : tag.arity ≤ node.trimmed.children.length := by
  rw [trimmed_eq hTag]
  by_cases hRepeating : tag = .repeating
  · subst hRepeating
    simp only [valued, visited_of_repeating hTag, List.map_nil, List.append_nil, List.length_map,
      List.length_take]
    exact Nat.le_min.mpr ⟨Nat.le_refl 2, hArity⟩
  by_cases hTemplate : tag = .template
  · subst hTemplate
    rw [valued, List.getElem?_eq_getElem hArity]
    simp [Tag.arity]
  · rw [valued_of_ne hRepeating hTemplate, List.nil_append, List.length_map]
    exact (length_visited_of_ne hTag hRepeating hTemplate hArity).2.1

theorem reads_trimmed {node : Node} {tag : Tag} (hTag : node.tag? = some tag)
    (hArity : tag.arity ≤ node.children.length) : node.trimmed.reads = node.reads := by
  have hTrimmed := tag?_trimmed hTag
  by_cases hRepeating : tag = .repeating
  · subst hRepeating
    rw [reads, hTrimmed, reads, hTag, trimmed_eq hTag, visited_of_repeating hTag]
    simp only [valued, List.map_nil, List.append_nil, ← List.map_take, List.take_take,
      Nat.min_self, List.filterMap_map]
    rfl
  by_cases hTemplate : tag = .template
  · subst hTemplate
    rw [reads_of_template hTrimmed, reads_of_template hTag, trimmed_eq hTag, valued,
      List.getElem?_eq_getElem hArity]
    rfl
  · rw [reads_of_ne hTrimmed hRepeating hTemplate, reads_of_ne hTag hRepeating hTemplate,
      trimmed_eq hTag]
    split
    · simp [text?, *]
    · rfl

theorem visited_trimmed {node : Node} {tag : Tag} (hTag : node.tag? = some tag)
    (hArity : tag.arity ≤ node.children.length) :
    node.trimmed.visited = node.visited.map trimmed := by
  have hTrimmed := tag?_trimmed hTag
  by_cases hRepeating : tag = .repeating
  · subst hRepeating
    rw [visited_of_repeating hTrimmed, visited_of_repeating hTag]
    rfl
  by_cases hTemplate : tag = .template
  · subst hTemplate
    rw [visited_of_template hTrimmed, templateArgs, trimmed_eq hTag, valued,
      List.getElem?_eq_getElem hArity]
    cases node.visited.map trimmed with
    | nil => rfl
    | cons arg rest => exact if_pos (by simp)
  · obtain ⟨-, -, hReads⟩ := length_visited_of_ne hTag hRepeating hTemplate hArity
    rw [visited_of_ne hTrimmed hRepeating hTemplate, trimmed_eq hTag,
      valued_of_ne hRepeating hTemplate, List.nil_append, List.length_map, hReads]
    exact List.take_of_length_le (Nat.le_of_eq (List.length_map _))

/-- A tree is alike to what is left of it. -/
theorem alike_trimmed {node : Node} (hFull : node.IsFull) : node.Alike node.trimmed := by
  induction node using Node.induction with
  | h node hChildren hArgs =>
    cases hTag : node.tag? with
    | none =>
      rw [trimmed, hTag]
      exact .dumped hTag
    | some tag =>
      obtain ⟨hHere, hFullBelow⟩ := isFull_iff.mp hFull
      have hArity := hHere tag hTag
      have hKind : node.trimmed.kind = node.kind := by rw [trimmed_eq hTag]
      have hBelow : ∀ below ∈ node.visited, below.Alike below.trimmed := by
        intro below hMem
        exact (mem_of_mem_visited hMem).elim
          (fun hChild => hChildren below hChild (hFullBelow below hMem))
          (fun hArg => hArgs below hArg (hFullBelow below hMem))
      refine .known hKind.symm hTag hArity (length_trimmed hTag hArity)
        (reads_trimmed hTag hArity).symm ?_
      rw [visited_trimmed hTag hArity, List.forall₂_map_right_iff, List.forall₂_same]
      exact hBelow

end Node

/-! ## Two runs -/

/-- Trees that are alike are rendered, converted and grouped as operands with the same outcome and
the same notices, under all settings. So is every tree with enough children and what is left of it
when all that is not read is dropped. -/
theorem render_of_alike (settings : Settings) :
    (∀ first second : Node, first.Alike second →
      render settings first = render settings second ∧
        convert settings first = convert settings second ∧
        renderOperand settings first = renderOperand settings second) ∧
    ∀ node : Node, node.IsFull →
      render settings node = render settings node.trimmed ∧
        convert settings node = convert settings node.trimmed ∧
        renderOperand settings node = renderOperand settings node.trimmed := by
  have hAlike : ∀ first second : Node, first.Alike second →
      render settings first = render settings second ∧
        convert settings first = convert settings second ∧
        renderOperand settings first = renderOperand settings second := by
    intro first second h
    have hRender : render settings first = render settings second :=
      renderWithin_of_alike settings h
    refine ⟨hRender, ?_, ?_⟩
    · rw [convert, convertAs, hRender]
      rfl
    · rw [renderOperand, renderOperand, hRender]
      simp only [Node.group_congr h.kind_eq]
  exact ⟨hAlike, fun node hFull => hAlike node node.trimmed (Node.alike_trimmed hFull)⟩

/-- A repeating decimal whose digits and period are the values of nodes of this kind. -/
def thirdAs (kind : String) : Node :=
  .ofChildren "periodic_localize".toList
    [.leaf kind.toList (.text "0.3".toList), .leaf kind.toList (.text "1".toList)]

/-- A template with its argument among its children, below nodes that lack children. -/
def paddedTemplate : Node :=
  .ofChildren "localized_text".toList [.ofChildren "frac".toList [], .ofChildren "sin".toList [],
    .leaf "frac".toList (.text "near ARG1".toList), thirdAs "frac"]

/-- A fraction with a value, a third operand and an argument. -/
def paddedFraction : Node where
  kind := "frac".toList
  value := some (.text "half".toList)
  children := [.leaf "var".toList (.text "x".toList), paddedTemplate, .ofChildren "sin".toList []]
  args := [.ofChildren "var".toList []]

/-- The same fraction without them, above a template with its argument apart. -/
def plainFraction : Node :=
  .ofChildren "frac".toList [.leaf "var".toList (.text "x".toList),
    { kind := "localized_text".toList
      children := [.leaf "string".toList (.text []), .leaf "string".toList (.text []),
        .leaf "string".toList (.text "near ARG1".toList)]
      args := [thirdAs "const"] }]

theorem alike_thirdAs : (thirdAs "frac").Alike (thirdAs "const") :=
  @Node.Alike.known _ _ .repeating rfl (by decide +kernel) (by decide) (by decide)
    (by decide +kernel) .nil

theorem render_of_alike_padded :
    paddedFraction.Alike plainFraction ∧ paddedFraction.IsFull ∧
      convert {} paddedFraction = convert {} plainFraction ∧
      convert {} paddedFraction = convert {} paddedFraction.trimmed ∧
      (convert {} paddedFraction).outcome =
        .ok "\\(\\frac\x7bx\x7d\x7b\\text\x7bnear \x7d0\x7b,\x7d(3)\x7d\\)".toList := by
  have hAlike : paddedFraction.Alike plainFraction := by
    have hVariable : Node.Alike (.leaf "var".toList (.text "x".toList))
        (.leaf "var".toList (.text "x".toList)) :=
      @Node.Alike.known _ _ .variable rfl (by decide +kernel) (by decide) (by decide) rfl .nil
    have hTemplate := @Node.Alike.known paddedTemplate plainFraction.children[1] .template rfl
      (by decide +kernel) (by decide) (by decide) (by decide +kernel) (.cons alike_thirdAs .nil)
    exact @Node.Alike.known _ _ .fraction rfl (by decide +kernel) (by decide) (by decide)
      (by decide +kernel) (.cons hVariable (.cons hTemplate .nil))
  have hFull : paddedFraction.IsFull := by
    have hVariable : Node.IsFull (.leaf "var".toList (.text "x".toList)) :=
      @Node.isFull_of_visited _ .variable [] (by decide +kernel) (by decide) rfl nofun
    have hThird : (thirdAs "frac").IsFull :=
      @Node.isFull_of_visited _ .repeating [] (by decide +kernel) (by decide) rfl nofun
    have hTemplate : paddedTemplate.IsFull :=
      @Node.isFull_of_visited _ .template [_] (by decide +kernel) (by decide) rfl
        (List.forall_mem_singleton.mpr hThird)
    exact @Node.isFull_of_visited _ .fraction [_, _] (by decide +kernel) (by decide) rfl
      (List.forall_mem_cons.mpr ⟨hVariable, List.forall_mem_singleton.mpr hTemplate⟩)
  obtain ⟨hTwo, hTrimmed⟩ := render_of_alike {}
  exact ⟨hAlike, hFull, (hTwo _ _ hAlike).2.1, (hTrimmed _ hFull).2.1, by decide +kernel⟩

end Formulary
