import Formulary.Proofs.Markup.Style
import Formulary.Proofs.Render.Reach
import Formulary.Proofs.Render.Value

/-!
# Fractions of converted trees

The renderer puts a brace behind every `\frac` it writes, and literals without a backslash begin no
command (`bracedRule`). So with display fractions a converted tree has `\dfrac` everywhere except
where shrinking reaches, which is in scripts only. Fractions in scripts are small throughout exactly
when all of them are reached (`fractions_convert`). They are not where a brace closes between the
opening of a script and a fraction in it, as in the power of a sum of two fractions.
-/

namespace Formulary

open Text Markup

/-! ## Values -/

theorem isBraced_append {first second : Text} (hFirst : IsBraced false first)
    (hSecond : IsBraced false second) : IsBraced false (first ++ second) :=
  hFirst.append (nomatch ·) hSecond

theorem isBraced_write (form : ValueForm) {text : Text} (h : '\\' ∉ text) :
    IsBraced false (form.write text) := by
  have hProse : ∀ word : Text, '\\' ∉ word → IsBraced false ("\\text".toList ++ braced word) := by
    intro word hWord
    have hOpen : IsBraced false ("\\text".toList ++ ['\x7b']) := by decide
    have hInner : IsBraced false (word ++ ['\x7d']) :=
      isBraced_append (isBraced_of_not_mem hWord false) (by decide)
    have hBoth := isBraced_append hOpen hInner
    rw [List.append_assoc] at hBoth
    exact hBoth
  match form with
  | .words => exact hProse text h
  | .unit => exact hProse (' ' :: text) (by simpa using h)
  | .variable =>
    refine isBraced_of_not_mem (fun hMem => ?_) false
    rcases mem_braceIndicesFrom hMem with hText | hBrace | hBrace
    · exact h hText
    · cases hBrace
    · cases hBrace
  | .constant =>
    refine isBraced_of_not_mem (fun hMem => ?_) false
    rcases mem_replaceFirst hMem with hComma | hText
    · revert hComma
      decide
    · exact h hText

theorem isBraced_format {decimal markup : Text} {count : Nat}
    (h : Repeating.format decimal count = .ok markup) (hText : '\\' ∉ decimal) :
    IsBraced false markup := by
  refine isBraced_of_not_mem (fun hMem => ?_) false
  rcases mem_format h hMem with hDecimal | hAdded
  · exact hText hDecimal
  · revert hAdded
    decide

/-! ## Layouts -/

theorem isBraced_group {node : Node} {markup : Text} (h : IsBraced false markup) :
    IsBraced false (node.group markup) := by
  unfold Node.group
  split
  · have hOpen : IsBraced false ['('] := by decide
    have hClose : IsBraced false [')'] := by decide
    exact isBraced_append (isBraced_append hOpen h) hClose
  · exact h

/-- The texts of a layout are braced, those between two operands put together. -/
def areBraced : Text → List Piece → Bool
  | run, [] => decide (IsBraced false run)
  | run, .text markup :: rest => areBraced (run ++ markup) rest
  | run, _ :: rest => decide (IsBraced false run) && areBraced [] rest

/-- Braced operands are put between braced texts. -/
theorem isBraced_fillPieces {operands : List (Node × Text)}
    (hOperands : ∀ operand ∈ operands, IsBraced false operand.2) (run : Text) {pieces : List Piece}
    (h : areBraced run pieces) : IsBraced false (run ++ fillPieces pieces operands) := by
  have hGroups : ∀ operand ∈ operands, IsBraced false (operand.1.group operand.2) :=
    fun operand hMem => isBraced_group (hOperands operand hMem)
  have hOperand : ∀ {run : Text} {piece : Piece} {rest : List Piece}, piece.fill [] = [] →
      (decide (IsBraced false run) && areBraced [] rest) = true →
      (areBraced [] rest → IsBraced false ([] ++ fillPieces rest operands)) →
      IsBraced false (run ++ fillPieces (piece :: rest) operands) := by
    intro run piece rest hNone hBoth hLater
    obtain ⟨hRun, hRest⟩ := Bool.and_eq_true_iff.mp hBoth
    have hPiece : IsBraced false (piece.fill operands) :=
      piece.forall_fill (hNone ▸ trivial) hOperands hGroups
    exact isBraced_append (of_decide_eq_true hRun) (isBraced_append hPiece (hLater hRest))
  induction pieces generalizing run with
  | nil =>
    rw [fillPieces, List.flatMap_nil, List.append_nil]
    exact of_decide_eq_true h
  | cons piece rest ih =>
    cases piece with
    | text markup =>
      have hRest := ih (run ++ markup) h
      rw [List.append_assoc] at hRest
      exact hRest
    | operand index => exact hOperand rfl h (ih [])
    | grouped index => exact hOperand rfl h (ih [])

/-- With braced operands the layout is braced. -/
def Layout.isBraced : Layout → Bool
  | .fixed pieces => areBraced [] pieces
  | .series opening separator closing =>
    [opening, separator, closing].all fun text => decide (IsBraced false text)
  | _ => true

theorem Layout.isBraced_ofTag (tag : Tag) : (Layout.ofTag tag).isBraced := by
  have hAll : ∀ tag ∈ Tag.all, (Layout.ofTag tag).isBraced = true := by decide +kernel
  exact hAll tag tag.mem_all

/-! ## Trees -/

/-- A node with a layout, no template, that takes no backslash from literals. -/
structure IsCommandFree (node : Node) : Prop where
  tagged : node.tag? ≠ none
  noTemplate : node.tag? ≠ some .template
  plain : ∀ text ∈ node.reads, '\\' ∉ text

instance (node : Node) : Decidable (IsCommandFree node) :=
  decidable_of_iff
    (node.tag? ≠ none ∧ node.tag? ≠ some .template ∧ ∀ text ∈ node.reads, '\\' ∉ text)
    ⟨fun ⟨hTagged, hTemplate, hPlain⟩ => ⟨hTagged, hTemplate, hPlain⟩,
      fun h => ⟨h.tagged, h.noTemplate, h.plain⟩⟩

/-- Every layout puts a brace behind its fractions. -/
theorem bracedRule (settings : Settings) :
    MarkupRule settings IsCommandFree fun _ raw => IsBraced false raw where
  value hFree _ _ hText := isBraced_write _ (hFree.plain _ hText)
  repeating hFree _ hDecimal hMarkup := isBraced_format hMarkup (hFree.plain _ hDecimal)
  fixed {node tag pieces markups} _ _ hLayout hMarkups := by
    have hBraced := forall_mem_of_forall₂ hMarkups fun _ _ _ h => h
    have hPieces := Layout.isBraced_ofTag tag
    rw [hLayout] at hPieces
    exact isBraced_fillPieces
      (fun operand hOperand => hBraced _ (List.of_mem_zip hOperand).2) [] hPieces
  series {node tag opening separator closing markups} _ _ hLayout hMarkups := by
    have hBraced := forall_mem_of_forall₂ hMarkups fun _ _ _ h => h
    have hTexts := Layout.isBraced_ofTag tag
    rw [hLayout] at hTexts
    have hText : ∀ text ∈ [opening, separator, closing], IsBraced false text :=
      fun text hMem => of_decide_eq_true (List.all_eq_true.mp hTexts text hMem)
    have hRows : IsBraced false (separator.intercalate markups) :=
      forall_intercalate (P := IsBraced false) trivial
        (fun hFirst hSecond =>
          isBraced_append (isBraced_append hFirst (hText separator (by simp))) hSecond) hBraced
    exact isBraced_append (isBraced_append (hText opening (by simp)) hRows)
      (hText closing (by simp))
  template hFree hTag _ _ := absurd hTag hFree.noTemplate
  dump hFree hTag := absurd hTag hFree.tagged

/-- With display fractions a converted tree has `\frac` where a fraction is reached, which is in
scripts only, and `\dfrac` elsewhere. So the fractions outside of scripts are the ones in display
size exactly when every fraction in a script is reached. -/
theorem fractions_convert {settings : Settings} (hDisplay : settings.displayFractions = true)
    {node : Node} {out : Text} (hFree : ∀ below, node.Reaches below → IsCommandFree below)
    (hOut : (convert settings node).outcome = .ok out) :
    (∀ fraction ∈ fractions out, fraction.display = !fraction.reached ∧
      (fraction.reached = true → fraction.scripted = true)) ∧
    ((∀ fraction ∈ fractions out, fraction.display = !fraction.scripted) ↔
      ∀ fraction ∈ fractions out, fraction.scripted = true → fraction.reached = true) := by
  obtain ⟨raw, hRaw, hWrap⟩ := Run.exists_of_outcome_bind_ok hOut
  cases hWrap
  have hBraced : IsBraced false raw := (bracedRule settings).holds (Nat.le_refl _) hFree hRaw
  have hStyled := isStyled_wrap settings.mathStyle (isStyled_finish hDisplay hBraced)
  have hSize := @IsStyled.display_eq .start _ hStyled
  have hScript := @scripted_of_reached .start Place.isSound_start
    (wrap settings.mathStyle (finish settings raw))
  refine ⟨fun fraction hMem => ⟨hSize fraction hMem, hScript fraction hMem⟩, ?_, ?_⟩
  · intro hAll fraction hMem hScripted
    have hSmall := hSize fraction hMem
    rw [hAll fraction hMem, hScripted] at hSmall
    simpa using hSmall.symm
  · intro hAll fraction hMem
    rw [hSize fraction hMem, Bool.eq_iff_iff.mpr ⟨hScript fraction hMem, hAll fraction hMem⟩]

/-- A fraction of two constants. -/
def fractionNode (above below : Text) : Node :=
  .ofChildren "frac".toList [.leaf "const".toList (.text above), .leaf "const".toList (.text below)]

/-- A fraction with a fraction in the exponent below it. -/
def nestedFraction : Node :=
  .ofChildren "frac".toList [.leaf "const".toList (.text "1".toList),
    .ofChildren "pow".toList [.leaf "var".toList (.text "x".toList),
      fractionNode "2".toList "3".toList]]

/-- The markup of `nestedFraction`. -/
def nestedFractionMarkup : Text :=
  "\\(\\dfrac\x7b1\x7d\x7bx^\x7b\\frac\x7b2\x7d\x7b3\x7d\x7d\x7d\\)".toList

theorem fractions_convert_nestedFraction :
    (∀ below, nestedFraction.Reaches below → IsCommandFree below) ∧
    (convert displaySettings nestedFraction).outcome = .ok nestedFractionMarkup ∧
    ∀ fraction ∈ fractions nestedFractionMarkup, fraction.display = !fraction.scripted := by
  have hVisits : ∀ below ∈ nestedFraction.visits, IsCommandFree below := by decide +kernel
  have hFree : ∀ below, nestedFraction.Reaches below → IsCommandFree below :=
    fun below hBelow => hVisits below (Node.mem_visits_of_reaches hBelow)
  have hOut : (convert displaySettings nestedFraction).outcome = .ok nestedFractionMarkup := by
    decide +kernel
  exact ⟨hFree, hOut, (fractions_convert rfl hFree hOut).2.mpr (by decide +kernel)⟩

/-- A power whose exponent is a sum of two fractions. -/
def scriptedSum : Node :=
  .ofChildren "pow".toList [.leaf "var".toList (.text "x".toList),
    .ofChildren "add".toList [fractionNode "1".toList "2".toList,
      fractionNode "3".toList "4".toList]]

/-- The second fraction of the exponent stays in display size. -/
theorem exists_display_scriptedSum :
    (∀ below ∈ scriptedSum.visits, IsCommandFree below) ∧
    ∃ out, (convert displaySettings scriptedSum).outcome = .ok out ∧
      ∃ fraction ∈ fractions out, fraction.scripted = true ∧ fraction.display = true := by
  refine ⟨by decide +kernel,
    "\\(x^\x7b\\frac\x7b1\x7d\x7b2\x7d+\\dfrac\x7b3\x7d\x7b4\x7d\x7d\\)".toList, ?_, ?_⟩
  · decide +kernel
  · decide +kernel

end Formulary
