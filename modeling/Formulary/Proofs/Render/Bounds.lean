import Formulary.Proofs.Render.Reach

/-!
# Operands that are there

A layout names operands by their index, and how many operands a tag asks for stands in a table of
its own. `renderWithin` leaves a place empty when its operand is missing, so that it cannot show
that this never happens. `lookWithin` renders in the same way, but it ends with `Stop.outOfRange`
at the first operand that is not there. The two agree on all trees (`lookWithin_eq`), because the
check of a node asks for at least as many children as its layout names:

* `readPieces_eq`, `Node.lookText_eq`, `Node.lookRepeating_eq`, `Node.lookArgs_eq`: each look-up
  finds what it looks for, under the bound that it needs;
* `Node.lookLayout_eq`: a node with the children that its tag asks for keeps these bounds;
* `operands_are_there`: no look-up misses, and what follows for layouts with places.
-/

namespace Formulary

/-- What ends a rendering whose look-ups may miss. -/
inductive Stop where
  /-- There is no item at this index. -/
  | outOfRange (index : Nat)
  | failed (error : RenderError)

variable {α : Type}

/-! ## Looking up -/

/-- The item at an index, which must be there. -/
def lookUp (items : List α) (index : Nat) : Except Stop α :=
  match items[index]? with
  | some item => .ok item
  | none => .error (.outOfRange index)

/-- The items from an index on, which must not be behind the end. -/
def lookFrom (items : List α) (start : Nat) : Except Stop (List α) :=
  if start ≤ items.length then .ok (items.drop start) else .error (.outOfRange start)

theorem lookUp_eq {items : List α} {index : Nat} (h : index < items.length) :
    lookUp items index = .ok items[index] := by
  rw [lookUp, List.getElem?_eq_getElem h]

theorem mapM_lookUp {items : List α} {count : Nat} (h : count ≤ items.length) :
    (List.range count).mapM (lookUp items) = .ok (items.take count) := by
  induction count with
  | zero => rfl
  | succ count ih =>
    rw [List.range_succ, List.mapM_append, ih (Nat.le_of_succ_le h), List.mapM_cons, lookUp_eq h,
      List.take_succ_eq_append_getElem h]
    rfl

/-- The text of a piece; the operand that it names must be there. -/
def Piece.read (operands : List (Node × Text)) : Piece → Except Stop Text
  | .text markup => .ok markup
  | .operand index => do return (← lookUp operands index).2
  | .grouped index => do
    let (node, markup) ← lookUp operands index
    return node.group markup

/-- The markup of a fixed layout; the operands that it names must be there. -/
def readPieces (pieces : List Piece) (operands : List (Node × Text)) : Except Stop Text := do
  return (← pieces.mapM (Piece.read operands)).flatten

theorem Piece.read_eq {operands : List (Node × Text)} {piece : Piece}
    (h : piece.needs ≤ operands.length) : piece.read operands = .ok (piece.fill operands) := by
  cases piece with
  | text markup => rfl
  | operand index =>
    rw [Piece.read, lookUp_eq h, Piece.fill, List.getElem?_eq_getElem h]
    rfl
  | grouped index =>
    rw [Piece.read, lookUp_eq h, Piece.fill, List.getElem?_eq_getElem h]
    rfl

theorem readPieces_eq {pieces : List Piece} {operands : List (Node × Text)}
    (h : operandCount pieces ≤ operands.length) :
    readPieces pieces operands = .ok (fillPieces pieces operands) := by
  have hPieces : pieces.mapM (Piece.read operands) = .ok (pieces.map (Piece.fill operands)) := by
    induction pieces with
    | nil => rfl
    | cons piece rest ih =>
      obtain ⟨hPiece, hRest⟩ := Nat.max_le.mp h
      rw [List.mapM_cons, Piece.read_eq hPiece, ih hRest]
      rfl
  rw [readPieces, hPieces, fillPieces, List.flatMap_def]
  rfl

namespace Node

/-- The value of the child at an index, which must be there. -/
def lookText (tag : Tag) (node : Node) (index : Nat) : Except Stop Text := do
  let child ← lookUp node.children index
  (child.needText tag).mapError .failed

/-- The markup of a repeating decimal, with the children that it reads looked up. -/
def lookRepeating (node : Node) : Except Stop Text := do
  let decimal ← node.lookText .repeating 0
  let count ← node.lookText .repeating 1
  match Repeating.count? count with
  | some count => (Repeating.format decimal count).mapError .failed
  | none => .error (.failed (.invalidLiteral .repeating count))

/-- The arguments of a template, with the children behind the third looked up. -/
def lookArgs (node : Node) : Except Stop (List Node) :=
  if 3 < node.children.length then lookFrom node.children 3 else .ok node.args

theorem lookText_eq {tag : Tag} {node : Node} {index : Nat} (h : index < node.children.length) :
    node.lookText tag index = (node.needChildText tag index).mapError .failed := by
  rw [lookText, lookUp_eq h, needChildText, List.getElem?_eq_getElem h]
  rfl

theorem lookRepeating_eq {node : Node} (h : 2 ≤ node.children.length) :
    node.lookRepeating = node.repeating.mapError .failed := by
  rw [lookRepeating, repeating, lookText_eq (Nat.lt_of_lt_of_le Nat.zero_lt_two h), lookText_eq h]
  rw [mapError_bind]
  refine congrArg _ (funext fun decimal => ?_)
  rw [mapError_bind]
  refine congrArg _ (funext fun repeats => ?_)
  cases Repeating.count? repeats <;> rfl

theorem lookArgs_eq (node : Node) : node.lookArgs = .ok node.templateArgs := by
  rw [lookArgs, templateArgs]
  split
  · rename_i hMany
    exact if_pos (Nat.le_of_lt hMany)
  · rfl

/-- Put the markup of a node with a tag together, with every operand looked up by its index. All of
them are looked up before one is rendered, so that no failure hides a look-up that misses. -/
def lookLayout (settings : Settings) (visit fragment : Node → Run Stop Text) (tag : Tag)
    (node : Node) : Run Stop Text :=
  match Layout.ofTag tag with
  | .value form => do
    return form.write (← .ofExcept ((node.needText tag).mapError .failed))
  | .fixed pieces => do
    let nodes ← .ofExcept ((List.range (operandCount pieces)).mapM (lookUp node.children))
    let markups ← nodes.mapM visit
    .ofExcept (readPieces pieces (nodes.zip markups))
  | .series opening separator closing => do
    return opening ++ separator.intercalate (← node.children.mapM visit) ++ closing
  | .repeating => .ofExcept node.lookRepeating
  | .template => do
    let text ← .ofExcept (node.lookText tag 2)
    let fragments ← (← .ofExcept node.lookArgs).mapM fragment
    return localize (Placeholder.fill settings.substitution fragments text)

/-- Do what a node asks for, with every operand looked up by its index. -/
def look (settings : Settings) (visit fragment : Node → Run Stop Text) (node : Node) :
    Run Stop Text :=
  match node.tag? with
  | none => do
    .tell (.unknownKind node.kind)
    return node.dump
  | some tag => do
    .ofExcept ((tag.check node).mapError .failed)
    node.lookLayout settings visit fragment tag

variable {settings : Settings} {visit fragment : Node → Run RenderError Text}

theorem lookLayout_eq {tag : Tag} {node : Node} (h : tag.arity ≤ node.children.length) :
    node.lookLayout settings (fun below => (visit below).mapError .failed)
        (fun arg => (fragment arg).mapError .failed) tag =
      (Run.ofExcept (node.planOf tag) >>=
        Plan.follow (fun run => run) settings visit fragment node).mapError .failed := by
  unfold lookLayout planOf
  cases hLayout : Layout.ofTag tag with
  | value form =>
    simp only
    cases node.needText tag <;> rfl
  | fixed pieces =>
    simp only
    have hCount : operandCount pieces ≤ node.children.length := by
      rwa [Layout.operandCount_eq hLayout]
    rw [mapM_lookUp hCount]
    change ((node.children.take (operandCount pieces)).mapM _ >>= _) = Run.mapError _
      ((node.children.take (operandCount pieces)).mapM visit >>= _)
    rw [Run.mapError_bind, Run.mapError_mapM]
    refine Run.bind_congr fun markups hMarkups => ?_
    have hZip : ((node.children.take (operandCount pieces)).zip markups).length =
        operandCount pieces := by
      rw [List.length_zip, Run.length_of_outcome_mapM hMarkups, Nat.min_self,
        List.length_take_of_le hCount]
    rw [readPieces_eq (Nat.le_of_eq hZip.symm)]
    rfl
  | series opening separator closing =>
    simp only
    change _ = Run.mapError _ (node.children.mapM visit >>= _)
    rw [Run.mapError_bind, Run.mapError_mapM]
    rfl
  | repeating =>
    obtain rfl := Layout.eq_repeating hLayout
    simp only
    rw [lookRepeating_eq h]
    cases node.repeating <;> rfl
  | template =>
    obtain rfl := Layout.eq_template hLayout
    simp only
    rw [lookText_eq h, lookArgs_eq]
    cases node.needChildText .template 2 with
    | error error => rfl
    | ok text =>
      have hFollow := Plan.follow_template (fun run => run) settings visit fragment node text
        node.templateArgs
      change (node.templateArgs.mapM _ >>= _) = Run.mapError _
        (Plan.follow (fun run => run) settings visit fragment node
          (.template text node.templateArgs))
      rw [hFollow, Run.mapError_bind, Run.mapError_mapM]
      rfl

theorem look_eq (node : Node) :
    node.look settings (fun below => (visit below).mapError .failed)
        (fun arg => (fragment arg).mapError .failed) =
      (Run.ofExcept node.plan >>=
        Plan.follow (fun run => run) settings visit fragment node).mapError .failed := by
  unfold look plan
  cases node.tag? with
  | none => rfl
  | some tag =>
    simp only
    cases hCheck : tag.check node with
    | error error => rfl
    | ok => exact lookLayout_eq (arity_le_of_check hCheck)

end Node

/-- Render a node with room for so many levels, with every operand looked up by its index. -/
def lookWithin (settings : Settings) : Nat → Node → Run Stop Text
  | 0, _ => .fail (.failed (.depthExceeded settings.maxDepth))
  | room + 1, node =>
    node.look settings (lookWithin settings room) fun arg => do
      let raw ← lookWithin settings room arg
      (delimited settings .inline raw).mapError .failed

/-- Every operand that is looked up is there. -/
theorem lookWithin_eq (settings : Settings) (room : Nat) (node : Node) :
    lookWithin settings room node = (renderWithin settings room node).mapError .failed := by
  induction room generalizing node with
  | zero => rfl
  | succ room ih =>
    have hFragment : ∀ arg, (do
        let raw ← lookWithin settings room arg
        (delimited settings .inline raw).mapError .failed) =
          (fragmentWithin settings room arg).mapError .failed := by
      intro arg
      rw [fragmentWithin, Run.mapError_bind, ih]
    rw [renderWithin_succ, ← Node.look_eq, lookWithin, funext hFragment, funext ih]

/-! ## What is looked up -/

theorem needs_le_operandCount {pieces : List Piece} {piece : Piece} (h : piece ∈ pieces) :
    piece.needs ≤ operandCount pieces := @le_peak Piece Piece.needs pieces piece h

/-- When a node with a fixed layout has markup, so have as many of its children as its tag asks for,
and every place of the layout is filled with that of a child. -/
theorem exists_of_fixed {settings : Settings} {room : Nat} {node : Node} {tag : Tag}
    {pieces : List Piece} {markup : Text} (hTag : node.tag? = some tag)
    (hLayout : Layout.ofTag tag = .fixed pieces)
    (h : (renderWithin settings (room + 1) node).outcome = .ok markup) :
    ∃ markups, markups.length = tag.arity ∧
      List.Forall₂ (fun child raw => (renderWithin settings room child).outcome = .ok raw)
        (node.children.take tag.arity) markups ∧
      (∀ piece ∈ pieces, piece.needs ≤ markups.length) ∧
      markup = fillPieces pieces ((node.children.take tag.arity).zip markups) := by
  rw [renderWithin_succ] at h
  obtain ⟨plan, hPlan, hFollow⟩ := Run.exists_of_outcome_bind_ok h
  obtain ⟨hCheck, hPlanOf⟩ := (Node.plan_eq_ok_iff hTag).mp hPlan
  have hCount := Layout.operandCount_eq hLayout
  unfold Node.planOf at hPlanOf
  rw [hLayout] at hPlanOf
  cases hPlanOf
  obtain ⟨markups, hMarkups, hPure⟩ := Run.exists_of_outcome_bind_ok hFollow
  cases hPure
  rw [hCount] at hMarkups ⊢
  have hLength : markups.length = tag.arity := by
    rw [Run.length_of_outcome_mapM hMarkups, List.length_take_of_le (Node.arity_le_of_check hCheck)]
  refine ⟨markups, hLength, ?_, fun piece hPiece => ?_, rfl⟩
  · exact Run.forall₂_of_outcome_mapM hMarkups fun _ _ _ hRaw => hRaw
  · rw [hLength, ← hCount]
    exact needs_le_operandCount hPiece

/-- A node with too few children fails before any of them is rendered, whatever that would do. -/
theorem fail_of_length_lt {settings : Settings} {visit fragment : Node → Run RenderError Text}
    {node : Node} {tag : Tag} (hTag : node.tag? = some tag)
    (hShort : node.children.length < tag.arity) :
    (Run.ofExcept node.plan >>= Plan.follow (fun run => run) settings visit fragment node) =
      .fail (.malformedNode tag node.children.length) := by
  have hCheck : tag.check node = .error (.malformedNode tag node.children.length) := if_pos hShort
  rw [Node.plan, hTag]
  simp only [hCheck]
  rfl

/-- Rendering looks for no operand that is not there, whatever the tree and however deep. A layout
with places is filled with the markup of as many children as the tag asks for, and a node with fewer
is refused before any of them is rendered. -/
theorem operands_are_there (settings : Settings) :
    (∀ room node, lookWithin settings room node =
        (renderWithin settings room node).mapError .failed ∧
      ∀ index, (lookWithin settings room node).outcome ≠ .error (.outOfRange index)) ∧
    (∀ room node tag pieces markup, node.tag? = some tag → Layout.ofTag tag = .fixed pieces →
      (renderWithin settings (room + 1) node).outcome = .ok markup →
      ∃ markups, markups.length = tag.arity ∧
        List.Forall₂ (fun child raw => (renderWithin settings room child).outcome = .ok raw)
          (node.children.take tag.arity) markups ∧
        (∀ piece ∈ pieces, piece.needs ≤ markups.length) ∧
        markup = fillPieces pieces ((node.children.take tag.arity).zip markups)) ∧
    ∀ room node tag, node.tag? = some tag → node.children.length < tag.arity →
      (∀ visit fragment, (Run.ofExcept node.plan >>=
          Plan.follow (fun run => run) settings visit fragment node) =
        .fail (.malformedNode tag node.children.length)) ∧
      renderWithin settings (room + 1) node = .fail (.malformedNode tag node.children.length) := by
  refine ⟨fun room node => ⟨lookWithin_eq settings room node, fun index hStop => ?_⟩,
    fun room node tag pieces markup => exists_of_fixed,
    fun room node tag hTag hShort => ⟨fun visit fragment => fail_of_length_lt hTag hShort, ?_⟩⟩
  · rw [lookWithin_eq] at hStop
    obtain ⟨error, -, hError⟩ := exists_of_mapError_error hStop
    cases hError
  · rw [renderWithin_succ]
    exact fail_of_length_lt hTag hShort

end Formulary
