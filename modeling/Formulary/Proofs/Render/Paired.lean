import Formulary.Proofs.Delimiter.Paired
import Formulary.Proofs.Markup.Fenced
import Formulary.Proofs.Render.Nested

/-!
# Sized pipes of converted trees

Scoped pipes are paired by the depth of parentheses, without regard to braces. The brackets of a
converted tree are nested exactly when every pair of pipes encloses a nested part of its group
(`isNested_brackets_convert_scoped`). They are when no absolute value stands within another one and
no condition has a bar, since then every two pipes of the markup are those of one absolute value
(`railedRule`); an absolute value in a fraction within another one is paired across the braces
(`not_isNested_brackets_nestedAbsolute`).
-/

namespace Formulary

open Text Delimiter

/-- The pipes of a word are fenced, and the word has none in a calm tree. -/
structure IsRailed (calm : Prop) (word : List (Sign Bracket)) : Prop where
  fenced : Fenced word
  bare : calm → .pipe ∉ word

namespace IsRailed

variable {calm : Prop} {first second word : List (Sign Bracket)}

theorem of_not_mem (h : .pipe ∉ word) : IsRailed calm word := ⟨.of_not_mem h, fun _ => h⟩

theorem append (hFirst : IsRailed calm first) (hSecond : IsRailed calm second) :
    IsRailed calm (first ++ second) where
  fenced := hFirst.fenced.append hSecond.fenced
  bare hCalm := by
    rw [List.mem_append]
    exact not_or.mpr ⟨hFirst.bare hCalm, hSecond.bare hCalm⟩

theorem mono {calmer : Prop} (h : IsRailed calm word) (hCalm : calmer → calm) :
    IsRailed calmer word := ⟨h.fenced, fun hHere => h.bare (hCalm hHere)⟩

end IsRailed

/-! ## Layouts -/

section Layouts

variable {calm : Prop} {operands : List (Node × Text)}

theorem isQuiet_fill (hOperands : ∀ operand ∈ operands, IsOrderly operand.2) {piece : Piece}
    (hPiece : (Lead.plain.through (piece.fill [])).isQuiet) :
    (Lead.plain.through (piece.fill operands)).isQuiet :=
  @Piece.forall_fill (fun text => (Lead.plain.through text).isQuiet) operands piece hPiece
    (fun operand hOperand => (hOperands operand hOperand).quiet)
    fun operand hOperand => (carried_orderly.group (hOperands operand hOperand)).quiet

theorem signs_fillPieces (hOperands : ∀ operand ∈ operands, IsOrderly operand.2)
    {pieces : List Piece}
    (hPieces : ∀ piece ∈ pieces, (Lead.plain.through (piece.fill [])).isQuiet) :
    signs (fillPieces pieces operands) =
      pieces.flatMap fun piece => signs (piece.fill operands) := by
  induction pieces with
  | nil => rfl
  | cons piece rest ih =>
    have hPiece := isQuiet_fill hOperands (hPieces piece List.mem_cons_self)
    rw [List.flatMap_cons, ← ih fun other hOther => hPieces other (List.mem_cons_of_mem _ hOther),
      ← signs_append hPiece]
    rfl

theorem isRailed_group {node : Node} {markup : Text} (hOrderly : IsOrderly markup)
    (h : IsRailed calm (signs markup)) : IsRailed calm (signs (node.group markup)) := by
  unfold Node.group
  split
  · have hFront : (Lead.plain.through (['('] ++ markup)).isQuiet :=
      isQuiet_append rfl hOrderly.quiet
    have hSigns : signs ('(' :: markup ++ [')']) =
        signs ['('] ++ (signs markup ++ signs [')']) := by
      rw [← List.append_assoc, ← signs_append rfl, ← signs_append hFront]
      rfl
    rw [hSigns]
    exact .append (.of_not_mem (by decide)) (.append h (.of_not_mem (by decide)))
  · exact h

theorem isRailed_fill (hOperands : ∀ operand ∈ operands, IsOrderly operand.2 ∧
    IsRailed calm (signs operand.2)) {piece : Piece} (hPiece : .pipe ∉ signs (piece.fill [])) :
    IsRailed calm (signs (piece.fill operands)) := by
  refine @Piece.forall_fill (fun text => IsRailed calm (signs text)) operands piece
    (.of_not_mem hPiece) (fun operand hOperand => (hOperands operand hOperand).2) ?_
  intro operand hOperand
  obtain ⟨hOrderly, hRailed⟩ := hOperands operand hOperand
  exact isRailed_group hOrderly hRailed

theorem isRailed_flatMap {pieces : List Piece} {word : Piece → List (Sign Bracket)}
    (h : ∀ piece ∈ pieces, IsRailed calm (word piece)) : IsRailed calm (pieces.flatMap word) := by
  induction pieces with
  | nil => exact .of_not_mem List.not_mem_nil
  | cons piece rest ih =>
    rw [List.flatMap_cons]
    exact (h piece List.mem_cons_self).append
      (ih fun other hOther => h other (List.mem_cons_of_mem _ hOther))

theorem isRailed_intercalate {separator : Text} (hSeparator : IsOrderly separator)
    (hBare : .pipe ∉ signs separator) {markups : List Text}
    (hMarkups : ∀ markup ∈ markups, IsOrderly markup ∧ IsRailed calm (signs markup)) :
    IsRailed calm (signs (separator.intercalate markups)) := by
  refine (@forall_intercalate (fun text => IsOrderly text ∧ IsRailed calm (signs text)) separator
    ⟨isOrderly_nil, .of_not_mem List.not_mem_nil⟩ ?_ markups hMarkups).2
  rintro first second ⟨hFirst, hFirstRailed⟩ ⟨hSecond, hSecondRailed⟩
  have hFront := hFirst.append hSeparator
  refine ⟨hFront.append hSecond, ?_⟩
  rw [signs_append hFront.quiet, signs_append hFirst.quiet]
  exact (hFirstRailed.append (.of_not_mem hBare)).append hSecondRailed

end Layouts

/-- The tags whose layout has a pipe. -/
def pipeTags : List Tag := [.absolute, .condition]

theorem Layout.pipe_not_mem {tag : Tag} (hTag : tag ∉ pipeTags) {word : Text}
    (h : word ∈ (Layout.ofTag tag).words) : .pipe ∉ signs word := by
  have hAll : ∀ tag ∈ Tag.all, tag ∉ pipeTags → ∀ word ∈ (Layout.ofTag tag).words,
      .pipe ∉ signs word := by
    decide +kernel
  exact hAll tag tag.mem_all hTag word h

theorem Layout.endsQuiet {tag : Tag} {word : Text} (h : word ∈ (Layout.ofTag tag).words) :
    EndsQuiet word := by
  have hAll : ∀ tag ∈ Tag.all, ∀ word ∈ (Layout.ofTag tag).words, EndsQuiet word := by
    decide +kernel
  exact hAll tag tag.mem_all word h

theorem isRailed_fixed {calm : Prop} {operands : List (Node × Text)} {tag : Tag}
    (hPipe : tag ∉ pipeTags) {pieces : List Piece}
    (hLayout : Layout.ofTag tag = .fixed pieces) (hOperands : ∀ operand ∈ operands,
      IsOrderly operand.2 ∧ IsRailed calm (signs operand.2)) :
    IsRailed calm (signs (fillPieces pieces operands)) := by
  have hWord : ∀ piece ∈ pieces, piece.fill [] ∈ (Layout.ofTag tag).words := by
    intro piece hPiece
    rw [hLayout]
    exact List.mem_map_of_mem hPiece
  rw [signs_fillPieces (fun operand hOperand => (hOperands operand hOperand).1)
    fun piece hPiece => Layout.endsQuiet (hWord piece hPiece)]
  exact isRailed_flatMap fun piece hPiece =>
    isRailed_fill hOperands (Layout.pipe_not_mem hPipe (hWord piece hPiece))

theorem isRailed_series {calm : Prop} {tag : Tag} (hTag : tag ∉ halfOpenTags)
    (hPipe : tag ∉ pipeTags) {opening separator closing : Text}
    (hLayout : Layout.ofTag tag = .series opening separator closing) {markups : List Text}
    (hMarkups : ∀ markup ∈ markups, IsOrderly markup ∧ IsRailed calm (signs markup)) :
    IsRailed calm (signs (opening ++ separator.intercalate markups ++ closing)) := by
  have hBare : ∀ word ∈ [opening, separator, closing], .pipe ∉ signs word := by
    intro word hWord
    refine Layout.pipe_not_mem hPipe ?_
    rw [hLayout]
    exact hWord
  have hCarries := Layout.carries_orderly hTag
  rw [hLayout] at hCarries
  obtain ⟨-, hSeparator, hQuiet⟩ := hCarries
  have hInner := carried_orderly.intercalate hSeparator fun markup hMarkup =>
    (hMarkups markup hMarkup).1
  rw [signs_append (isQuiet_append hQuiet hInner.quiet), signs_append hQuiet]
  refine .append (.append (.of_not_mem (hBare opening (by simp))) ?_)
    (.of_not_mem (hBare closing (by simp)))
  exact isRailed_intercalate hSeparator (hBare separator (by simp)) hMarkups

/-- The pipes of an absolute value stand around markup without pipes. -/
theorem fenced_absolute {operands : List (Node × Text)} (hOperands : ∀ operand ∈ operands,
      IsOrderly operand.2 ∧ .pipe ∉ signs operand.2) {pieces : List Piece}
    (hLayout : Layout.ofTag .absolute = .fixed pieces) :
    Fenced (signs (fillPieces pieces operands)) := by
  obtain rfl := Layout.fixed.inj hLayout
  have hOrderly : ∀ operand ∈ operands, IsOrderly operand.2 :=
    fun operand hOperand => (hOperands operand hOperand).1
  have hRailed : ∀ operand ∈ operands, IsOrderly operand.2 ∧ IsRailed True (signs operand.2) :=
    fun operand hOperand =>
      ⟨hOrderly operand hOperand, .of_not_mem (hOperands operand hOperand).2⟩
  have hInner : IsOrderly (Piece.fill operands (.operand 0)) := carried_orderly.fill hOrderly rfl
  have hBare : .pipe ∉ signs (Piece.fill operands (.operand 0)) :=
    (isRailed_fill hRailed (by decide)).bare trivial
  rw [signs_fillPieces hOrderly (by decide)]
  exact .fence hInner.nested hBare .nil

/-! ## Trees -/

/-- No absolute value is rendered in a tree. -/
def IsCalmTree (node : Node) : Prop := ∀ below, node.Reaches below → below.tag? ≠ some .absolute

/-- A tidy node without a bar of its own, unless it is an absolute value of a calm tree. -/
structure IsRailedNode (node : Node) : Prop where
  tidy : IsTidy node
  bare : ∀ text ∈ node.reads, '|' ∉ text
  unconditional : node.tag? ≠ some .condition
  calm : node.tag? = some .absolute → ∀ operand ∈ node.visited, IsCalmTree operand

theorem IsRailedNode.not_mem {node : Node} (h : IsRailedNode node) {tag : Tag}
    (hTag : node.tag? = some tag) (hAbsolute : tag ≠ .absolute) : tag ∉ pipeTags := by
  have hCondition : tag ≠ .condition := fun hEq => h.unconditional (hEq ▸ hTag)
  simp [pipeTags, hAbsolute, hCondition]

theorem IsCalmTree.of_mem_visited {node child : Node} (h : IsCalmTree node)
    (hChild : child ∈ node.visited) : IsCalmTree child :=
  fun below hBelow => h below (.down hChild hBelow)

/-- The markup of a node is orderly, and its pipes are fenced. -/
def IsRailedMarkup (node : Node) (raw : Text) : Prop :=
  IsOrderly raw ∧ IsRailed (IsCalmTree node) (signs raw)

/-- Every layout passes on that pipes are fenced. -/
theorem railedRule (settings : Settings) : MarkupRule settings IsRailedNode IsRailedMarkup where
  value {node tag form text} hFine _ _ hText := by
    refine ⟨carried_orderly.write form (hFine.tidy.plain text hText), .of_not_mem ?_⟩
    refine pipe_not_mem_signs fun hMem => ?_
    rcases mem_write hMem with hBar | hAdded
    · exact hFine.bare text hText hBar
    · revert hAdded
      decide
  repeating {node decimal markup count} hFine _ hDecimal hMarkup := by
    refine ⟨carried_orderly.format hMarkup (hFine.tidy.plain decimal hDecimal), .of_not_mem ?_⟩
    refine pipe_not_mem_signs fun hMem => ?_
    rcases mem_format hMarkup hMem with hBar | hAdded
    · exact hFine.bare decimal hDecimal hBar
    · revert hAdded
      decide
  fixed {node tag pieces markups} hFine hTag hLayout hMarkups := by
    have hOperands : ∀ operand ∈ node.visited.zip markups,
        IsOrderly operand.2 ∧ IsRailed (IsCalmTree operand.1) (signs operand.2) :=
      fun operand hOperand => List.forall₂_zip hMarkups hOperand
    have hOrderly := fun operand hOperand => (hOperands operand hOperand).1
    have hCarries := Layout.carries_orderly (hFine.tidy.not_mem hTag)
    rw [hLayout] at hCarries
    refine ⟨carried_orderly.fixed hCarries hOrderly, ?_⟩
    by_cases hAbsolute : tag = .absolute
    · subst hAbsolute
      have hBare : ∀ operand ∈ node.visited.zip markups, .pipe ∉ signs operand.2 :=
        fun operand hOperand => (hOperands operand hOperand).2.bare
          (hFine.calm hTag operand.1 (List.of_mem_zip hOperand).1)
      exact ⟨fenced_absolute (fun operand hOperand =>
        ⟨hOrderly operand hOperand, hBare operand hOperand⟩) hLayout,
        fun hCalm => absurd hTag (hCalm node (.self node))⟩
    · refine isRailed_fixed (hFine.not_mem hTag hAbsolute) hLayout
        fun operand hOperand => ⟨hOrderly operand hOperand, ?_⟩
      have hChild := (List.of_mem_zip hOperand).1
      exact (hOperands operand hOperand).2.mono fun hCalm => hCalm.of_mem_visited hChild
  series {node tag opening separator closing markups} hFine hTag hLayout hMarkups := by
    have hRailed : ∀ markup ∈ markups, IsOrderly markup ∧
        IsRailed (IsCalmTree node) (signs markup) :=
      forall_mem_of_forall₂ hMarkups fun child hChild markup hMarkup =>
        ⟨hMarkup.1, hMarkup.2.mono fun hCalm => hCalm.of_mem_visited hChild⟩
    have hAbsolute : tag ≠ .absolute := by
      rintro rfl
      cases hLayout
    have hCarries := Layout.carries_orderly (hFine.tidy.not_mem hTag)
    rw [hLayout] at hCarries
    exact ⟨carried_orderly.series hCarries fun markup hMarkup => (hRailed markup hMarkup).1,
      isRailed_series (hFine.tidy.not_mem hTag) (hFine.not_mem hTag hAbsolute) hLayout hRailed⟩
  template hFine hTag _ _ := absurd hTag (hFine.tidy.closed _ List.mem_cons_self)
  dump hFine hTag := absurd hTag hFine.tidy.tagged

/-- The brackets of a converted tree are nested exactly when every pair of pipes in a sized group
encloses a nested part of it. They are when no absolute value stands within another one and no
condition has a bar. -/
theorem isNested_brackets_convert_scoped {settings : Settings}
    (hPipes : settings.pipeSizing = .scoped) {node : Node} {out : Text}
    (hTidy : ∀ below, node.Reaches below → IsTidy below)
    (hBare : ∀ below, node.Reaches below → ∀ text ∈ below.reads, '|' ∉ text)
    (hOut : (convert settings node).outcome = .ok out) :
    ∃ raw, (render settings node).outcome = .ok raw ∧
      (IsNested (brackets out) ↔
        ∀ group, .group group ∈ chunks (unsizedMarkup settings raw) → hasFraction group →
          ∀ before inside after, IsPair (signsOf group) before inside after → IsNested inside) ∧
      ((∀ below, node.Reaches below → below.tag? ≠ some .condition) →
        (∀ below, node.Reaches below → below.tag? = some .absolute →
          ∀ operand ∈ below.visited, IsCalmTree operand) → IsNested (brackets out)) := by
  obtain ⟨raw, hRaw, hOrderly, hBrackets⟩ := exists_of_convert hTidy hOut
  rw [hPipes] at hBrackets
  refine ⟨raw, hRaw, ?_, fun hCondition hCalm => ?_⟩
  · rw [hBrackets]
    exact isNested_brackets_size_scoped_iff hOrderly
  · have hFine : ∀ below, node.Reaches below → IsRailedNode below := fun below hBelow =>
      ⟨hTidy below hBelow, hBare below hBelow, hCondition below hBelow, hCalm below hBelow⟩
    have hRailed : IsRailedMarkup node raw := (railedRule settings).holds (Nat.le_refl _) hFine hRaw
    have hPadded := (padded_unsizedMarkup settings raw (.refl .plain)).1
    rw [hBrackets]
    exact isNested_brackets_size_of_fenced hOrderly (hRailed.2.fenced.of_padded hPadded)

/-- An absolute value of a fraction behind another fraction. -/
def absoluteFraction : Node :=
  .ofChildren "bracket".toList [.ofChildren "add".toList [
    .ofChildren "frac".toList [.leaf "const".toList (.text "1".toList),
      .leaf "const".toList (.text "2".toList)],
    .ofChildren "abs".toList [.ofChildren "frac".toList [.leaf "var".toList (.text "x".toList),
      .leaf "const".toList (.text "2".toList)]]]]

/-- The markup of `absoluteFraction`. -/
def absoluteFractionMarkup : Text :=
  "\\(\\left(\\frac\x7b1\x7d\x7b2\x7d+\\left|\\frac\x7bx\x7d\x7b2\x7d\\right|\\right)\\)".toList

theorem isNested_brackets_absoluteFraction :
    (∀ below, absoluteFraction.Reaches below → IsTidy below ∧ ∀ text ∈ below.reads, '|' ∉ text) ∧
      (convert {} absoluteFraction).outcome = .ok absoluteFractionMarkup ∧
      IsNested (brackets absoluteFractionMarkup) := by
  have hVisits : ∀ below ∈ absoluteFraction.visits, IsTidy below ∧
      ∀ text ∈ below.reads, '|' ∉ text := by
    decide +kernel
  have hReached : ∀ below, absoluteFraction.Reaches below → IsTidy below ∧
      ∀ text ∈ below.reads, '|' ∉ text :=
    fun below hBelow => hVisits below (Node.mem_visits_of_reaches hBelow)
  have hCondition : ∀ below ∈ absoluteFraction.visits, below.tag? ≠ some .condition := by
    decide +kernel
  have hCalm : ∀ below ∈ absoluteFraction.visits, below.tag? = some .absolute →
      ∀ operand ∈ below.visited, ∀ inner ∈ operand.visits, inner.tag? ≠ some .absolute := by
    decide +kernel
  have hOut : (convert {} absoluteFraction).outcome = .ok absoluteFractionMarkup := by
    decide +kernel
  obtain ⟨raw, -, -, hNested⟩ := isNested_brackets_convert_scoped rfl
    (fun below hBelow => (hReached below hBelow).1) (fun below hBelow => (hReached below hBelow).2)
    hOut
  refine ⟨hReached, hOut, hNested ?_ ?_⟩
  · exact fun below hBelow => hCondition below (Node.mem_visits_of_reaches hBelow)
  · exact fun below hBelow hTag operand hOperand inner hInner =>
      hCalm below (Node.mem_visits_of_reaches hBelow) hTag operand hOperand inner
        (Node.mem_visits_of_reaches hInner)

/-- An absolute value in a fraction within another one. -/
def nestedAbsolute : Node :=
  .ofChildren "bracket".toList [.ofChildren "abs".toList [.ofChildren "frac".toList [
    .ofChildren "abs".toList [.leaf "var".toList (.text "x".toList)],
    .leaf "const".toList (.text "2".toList)]]]

/-- The markup of `nestedAbsolute`. -/
def nestedAbsoluteMarkup : Text :=
  "\\(\\left(\\left|\\frac\x7b\\right|x\\left|\x7d\x7b2\x7d\\right|\\right)\\)".toList

/-- The pipes of two nested absolute values are paired across the braces of a fraction. -/
theorem not_isNested_brackets_nestedAbsolute :
    (∀ below, nestedAbsolute.Reaches below → IsTidy below ∧ ∀ text ∈ below.reads, '|' ∉ text) ∧
      (convert {} nestedAbsolute).outcome = .ok nestedAbsoluteMarkup ∧
      ¬IsNested (brackets nestedAbsoluteMarkup) := by
  have hVisits : ∀ below ∈ nestedAbsolute.visits, IsTidy below ∧
      ∀ text ∈ below.reads, '|' ∉ text := by
    decide +kernel
  refine ⟨fun below hBelow => hVisits below (Node.mem_visits_of_reaches hBelow), ?_, ?_⟩
  · decide +kernel
  · decide +kernel

end Formulary
