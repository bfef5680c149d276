import Formulary.Proofs.Render.Reach
import Formulary.Proofs.Render.Value

/-!
# What layouts carry over from their operands

Many properties of markup have one and the same reason to hold for a tree: markup that has the
property may be put into markup that has it, wherever that may be cut, and every layout has it while
its operands are empty. `Carried` collects what such a property must satisfy, for texts of literals
without certain characters; `Layout.Carries` is what it must satisfy for one layout.

* `Carried.fixed`, `Carried.series`: a layout has the property when its operands do;
* `Carried.write`, `Carried.format`: so do values and repeating decimals;
* `Carried.rule`: the rule for trees, up to templates.
-/

namespace Formulary

open Text

/-! ## Cuts -/

/-- The texts of a layout in front of its operands, each from the operand before it on. The first
argument is what has been read since then. -/
def runs : Text → List Piece → List Text
  | _, [] => []
  | run, .text markup :: rest => runs (run ++ markup) rest
  | run, _ :: rest => run :: runs [] rest

/-- A layout with empty operands has a property, and may be cut where its operands stand. -/
def Layout.Carries (Cut P : Text → Prop) : Layout → Prop
  | .fixed pieces => P (fillPieces pieces []) ∧ ∀ run ∈ runs [] pieces, Cut run
  | .series opening separator closing => P (opening ++ closing) ∧ P separator ∧ Cut opening
  | _ => True

instance {Cut P : Text → Prop} [DecidablePred Cut] [DecidablePred P] (layout : Layout) :
    Decidable (layout.Carries Cut P) :=
  match layout with
  | .fixed pieces =>
    inferInstanceAs (Decidable (P (fillPieces pieces []) ∧ ∀ run ∈ runs [] pieces, Cut run))
  | .series opening separator closing =>
    inferInstanceAs (Decidable (P (opening ++ closing) ∧ P separator ∧ Cut opening))
  | .value _ | .repeating | .template => .isTrue trivial

theorem Layout.Carries.imp {Cut Cut' P P' : Text → Prop} {layout : Layout}
    (h : layout.Carries Cut P) (hCut : ∀ {text}, Cut text → Cut' text)
    (hP : ∀ {text}, P text → P' text) : layout.Carries Cut' P' := by
  cases layout with
  | fixed pieces => exact ⟨hP h.1, fun run hRun => hCut (h.2 run hRun)⟩
  | series opening separator closing => exact ⟨hP h.1, hP h.2.1, hCut h.2.2⟩
  | value form => trivial
  | repeating => trivial
  | template => trivial

/-- A property that markup keeps when such markup is put into it behind a text that may be cut off.
Texts of literals have it, also with braces around their indices, unless they hold one of the
characters that are told apart. -/
structure Carried (chars : List Char) (Cut P : Text → Prop) : Prop where
  nil : P []
  cut {text : Text} (h : P text) : Cut text
  cutAppend {first second : Text} (hFirst : Cut first) (hSecond : Cut second) :
    Cut (first ++ second)
  insert {first second inner : Text} (hFirst : Cut first) (h : P (first ++ second))
    (hInner : P inner) : P (first ++ inner ++ second)
  plain {text : Text} (h : ∀ c ∈ chars, c ∉ text) : P text
  indexed {text : Text} (h : ∀ c ∈ chars, c ∉ text) : P (braceIndices text)
  space : ' ' ∉ chars
  comma : P Repeating.comma
  proseCut : Cut "\\text\x7b".toList
  prose : P ("\\text\x7b".toList ++ ['\x7d'])
  parenCut : Cut ['(']
  parens : P (['('] ++ [')'])

namespace Carried

variable {chars : List Char} {Cut P : Text → Prop}

theorem append (h : Carried chars Cut P) {first second : Text} (hFirst : P first)
    (hSecond : P second) : P (first ++ second) := by
  have hEmpty : P (first ++ []) := by rwa [List.append_nil]
  have hBoth := h.insert (h.cut hFirst) hEmpty hSecond
  rwa [List.append_nil] at hBoth

/-! ## Values -/

theorem parenthesized (h : Carried chars Cut P) {inner : Text} (hInner : P inner) :
    P ('(' :: inner ++ [')']) :=
  h.insert h.parenCut h.parens hInner

theorem write (h : Carried chars Cut P) (form : ValueForm) {text : Text}
    (hText : ∀ c ∈ chars, c ∉ text) : P (form.write text) := by
  have hProse : ∀ word : Text, (∀ c ∈ chars, c ∉ word) → P ("\\text".toList ++ braced word) :=
    fun word hWord => h.insert h.proseCut h.prose (h.plain hWord)
  match form with
  | .words => exact hProse text hText
  | .unit =>
    refine hProse (' ' :: text) fun c hc hMem => ?_
    rcases List.mem_cons.mp hMem with rfl | hRest
    · exact h.space hc
    · exact hText c hc hRest
  | .variable => exact h.indexed hText
  | .constant =>
    rw [ValueForm.write]
    rcases exists_of_replaceFirst ['.'] Repeating.comma text with hSame | ⟨front, back, rfl, hEq⟩
    · rw [hSame]
      exact h.plain hText
    · have hFront : ∀ c ∈ chars, c ∉ front := fun c hc hMem => hText c hc (by simp [hMem])
      have hBack : ∀ c ∈ chars, c ∉ back := fun c hc hMem => hText c hc (by simp [hMem])
      rw [hEq]
      exact h.append (h.append (h.plain hFront) h.comma) (h.plain hBack)

theorem format (h : Carried chars Cut P) {decimal markup : Text} {count : Nat}
    (hFormat : Repeating.format decimal count = .ok markup) (hText : ∀ c ∈ chars, c ∉ decimal) :
    P markup := by
  have hParts : ∀ c ∈ chars,
      c ∉ (Repeating.parts decimal).1 ∧ c ∉ (Repeating.parts decimal).2 := by
    intro c hc
    have hNone := hText c hc
    rcases parts_eq decimal with ⟨hEq, hNil⟩ | hEq
    · rw [hEq] at hNone
      rw [hNil]
      exact ⟨hNone, List.not_mem_nil⟩
    · rw [hEq, List.mem_append, List.mem_cons] at hNone
      exact ⟨fun hMem => hNone (.inl hMem), fun hMem => hNone (.inr (.inr hMem))⟩
  simp only [Repeating.format] at hFormat
  split at hFormat
  · cases hFormat
  · cases hFormat
    rw [List.append_assoc]
    refine h.append (h.append (h.append (h.plain fun c hc => (hParts c hc).1) h.comma)
      (h.plain fun c hc hMem => ?_)) (h.parenthesized (h.plain fun c hc hMem => ?_))
    · exact (hParts c hc).2 (List.mem_of_mem_take hMem)
    · exact (hParts c hc).2 (List.mem_of_mem_drop hMem)

/-! ## Layouts -/

theorem group (h : Carried chars Cut P) {node : Node} {markup : Text} (hMarkup : P markup) :
    P (node.group markup) := by
  unfold Node.group
  split
  · exact h.parenthesized hMarkup
  · exact hMarkup

theorem fill (h : Carried chars Cut P) {operands : List (Node × Text)}
    (hOperands : ∀ operand ∈ operands, P operand.2) {piece : Piece}
    (hEmpty : piece.fill [] = []) : P (piece.fill operands) :=
  piece.forall_fill (hEmpty ▸ h.nil) hOperands fun operand hOperand =>
    h.group (hOperands operand hOperand)

/-- Operands may be put into a layout, one after the other, behind what has been filled already. -/
theorem fillPieces_append (h : Carried chars Cut P) {operands : List (Node × Text)}
    (hOperands : ∀ operand ∈ operands, P operand.2) {pieces : List Piece} {front run : Text}
    (hFront : Cut front) (hRuns : ∀ cut ∈ runs run pieces, Cut cut)
    (hEmpty : P (front ++ run ++ fillPieces pieces [])) :
    P (front ++ run ++ fillPieces pieces operands) := by
  have hOperand : ∀ {piece : Piece} {rest : List Piece} {front run : Text},
      piece.fill [] = [] → Cut front → Cut run →
      P (front ++ run ++ fillPieces (piece :: rest) []) →
      (∀ {front : Text}, Cut front → P (front ++ [] ++ fillPieces rest []) →
        P (front ++ [] ++ fillPieces rest operands)) →
      P (front ++ run ++ fillPieces (piece :: rest) operands) := by
    intro piece rest front run hNone hFront hRun hEmpty hLater
    have hPiece : P (piece.fill operands) := h.fill hOperands hNone
    have hCut : Cut (front ++ run) := h.cutAppend hFront hRun
    have hPut : P (front ++ run ++ piece.fill operands ++ fillPieces rest []) := by
      rw [fillPieces, List.flatMap_cons, hNone] at hEmpty
      exact h.insert hCut hEmpty hPiece
    have hRest := hLater (h.cutAppend hCut (h.cut hPiece)) (by rwa [List.append_nil])
    rw [List.append_nil] at hRest
    rw [fillPieces, List.flatMap_cons, ← List.append_assoc]
    exact hRest
  induction pieces generalizing front run with
  | nil => exact hEmpty
  | cons piece rest ih =>
    cases piece with
    | text markup =>
      have hRest := @ih front (run ++ markup) hFront hRuns
        (by simpa only [fillPieces, List.flatMap_cons, Piece.fill, List.append_assoc] using hEmpty)
      simpa only [fillPieces, List.flatMap_cons, Piece.fill, List.append_assoc] using hRest
    | operand index =>
      obtain ⟨hRun, hRest⟩ := List.forall_mem_cons.mp hRuns
      exact hOperand rfl hFront hRun hEmpty fun hCut => ih hCut hRest
    | grouped index =>
      obtain ⟨hRun, hRest⟩ := List.forall_mem_cons.mp hRuns
      exact hOperand rfl hFront hRun hEmpty fun hCut => ih hCut hRest

theorem fixed (h : Carried chars Cut P) {pieces : List Piece}
    (hLayout : (Layout.fixed pieces).Carries Cut P) {operands : List (Node × Text)}
    (hOperands : ∀ operand ∈ operands, P operand.2) : P (fillPieces pieces operands) :=
  @fillPieces_append chars Cut P h operands hOperands pieces [] [] (h.cut h.nil) hLayout.2
    hLayout.1

theorem intercalate (h : Carried chars Cut P) {separator : Text} (hSeparator : P separator)
    {markups : List Text} (hMarkups : ∀ markup ∈ markups, P markup) :
    P (separator.intercalate markups) :=
  forall_intercalate h.nil
    (fun hFirst hSecond => h.append (h.append hFirst hSeparator) hSecond) hMarkups

theorem series (h : Carried chars Cut P) {opening separator closing : Text}
    (hLayout : (Layout.series opening separator closing).Carries Cut P) {markups : List Text}
    (hMarkups : ∀ markup ∈ markups, P markup) :
    P (opening ++ separator.intercalate markups ++ closing) :=
  h.insert hLayout.2.2 hLayout.1 (h.intercalate hLayout.2.1 hMarkups)

/-! ## Trees -/

/-- The markup of a tree has what its layouts and templates carry over, when its nodes have layouts
that do and take none of the characters from literals. -/
theorem rule (h : Carried chars Cut P) {settings : Settings} {fine : Node → Prop}
    (hTagged : ∀ {node}, fine node → node.tag? ≠ none)
    (hPlain : ∀ {node}, fine node → ∀ text ∈ node.reads, ∀ c ∈ chars, c ∉ text)
    (hLayout : ∀ {node tag}, fine node → node.tag? = some tag →
      (Layout.ofTag tag).Carries Cut P)
    (hTemplate : ∀ {node text raws}, fine node → node.tag? = some .template → text ∈ node.reads →
      List.Forall₂ (fun arg raw => P raw ∧ (render settings arg).outcome = .ok raw)
        node.visited raws →
      P (localize (Placeholder.fill settings.substitution
        (raws.map fun raw => Markup.wrap .inline (Markup.finish settings raw)) text))) :
    MarkupRule settings fine fun _ raw => P raw where
  value hFine _ _ hText := h.write _ (hPlain hFine _ hText)
  repeating hFine _ hDecimal hMarkup := h.format hMarkup (hPlain hFine _ hDecimal)
  fixed hFine hTag hOfTag hMarkups := by
    have hCarries := hLayout hFine hTag
    rw [hOfTag] at hCarries
    have hOperands := forall_mem_of_forall₂ hMarkups fun _ _ _ hMarkup => hMarkup
    exact h.fixed hCarries fun operand hOperand => hOperands _ (List.of_mem_zip hOperand).2
  series hFine hTag hOfTag hMarkups := by
    have hCarries := hLayout hFine hTag
    rw [hOfTag] at hCarries
    exact h.series hCarries (forall_mem_of_forall₂ hMarkups fun _ _ _ hMarkup => hMarkup)
  template hFine hTag hText hRaws := hTemplate hFine hTag hText hRaws
  dump hFine hTag := absurd hTag (hTagged hFine)

end Carried

end Formulary
