import Formulary.Proofs.Markup.Open
import Formulary.Proofs.Render.Filled
import Formulary.Proofs.Render.Reach
import Formulary.Proofs.Tree.Dump

/-!
# Fragments are read back

A fragment is the finished markup of a tree between `\(` and `\)`, and a template reads it back from
the text that it has filled. It finds the fragment as one span when the markup is not empty, stays
on one line and does not hold `\)` itself; an empty span and one that is broken over lines are none
(`mathSpan?_fragment`).

Without a backslash in any literal, `\)` comes from a row break before a literal that begins with a
parenthesis, from a kind without a layout, or from a template whose arguments are not cut out of it
as they were put in. Where there is none of these, every layout keeps math open (`openRule`). The
markup is on one line when all literals are (`lineRule`).
-/

namespace Formulary

open Text

/-! ## Values -/

/-- The tags of values that are written without a command around them. -/
def bareTags : List Tag := [.variable, .constant, .repeating]

theorem mem_bareTags {tag : Tag} {form : ValueForm} (hLayout : Layout.ofTag tag = .value form)
    (hForm : form ∈ [.variable, .constant]) : tag ∈ bareTags := by
  have hAll : ∀ tag ∈ Tag.all, ∀ form ∈ [.variable, .constant],
      Layout.ofTag tag = .value form → tag ∈ bareTags := by
    decide +kernel
  exact hAll tag tag.mem_all form hForm hLayout

theorem keepsOpen_write {form : ValueForm} {text : Text} (hText : '\\' ∉ text)
    (hFirst : form ∈ [.variable, .constant] → text.head? ≠ some ')') :
    KeepsOpen (form.write text) := by
  match form with
  | .words => exact keepsOpen_text hText
  | .unit => exact keepsOpen_text (List.not_mem_cons_of_ne_of_not_mem (by decide) hText)
  | .variable =>
    have hFirst := hFirst (by decide)
    refine .of_not_mem (fun h => ?_) ?_
    · rcases mem_braceIndicesFrom h with hMem | hBrace | hBrace
      · exact hText hMem
      · cases hBrace
      · cases hBrace
    · change (braceIndices text).head? ≠ _
      rw [head?_braceIndices]
      exact hFirst
  | .constant =>
    have hFirst := hFirst (by decide)
    refine .of_not_mem (fun h => ?_) (fun h => ?_)
    · rcases mem_replaceFirst h with hComma | hMem
      · revert hComma
        decide
      · exact hText hMem
    · rcases head?_replaceFirst h with hComma | hHead
      · cases hComma
      · exact hFirst hHead

theorem keepsOpen_format {decimal markup : Text} {count : Nat}
    (h : Repeating.format decimal count = .ok markup) (hText : '\\' ∉ decimal)
    (hFirst : decimal.head? ≠ some ')') : KeepsOpen markup := by
  refine .of_not_mem (fun hMem => ?_) ?_
  · rcases mem_format h hMem with hDecimal | hComma
    · exact hText hDecimal
    · revert hComma
      decide
  · simp only [Repeating.format] at h
    split at h
    · cases h
    · cases h
      cases hWhole : (Repeating.parts decimal).1 with
      | nil => exact fun hHead => by cases hHead
      | cons d rest =>
        have hHead : decimal.head? = some d := by
          rcases parts_eq decimal with ⟨hEq, -⟩ | hEq
          · rw [hEq, hWhole]
            rfl
          · rw [hEq, hWhole]
            rfl
        rw [hHead] at hFirst
        exact hFirst

/-! ## Layouts -/

/-- Operands that keep math open end none in a layout where empty ones do not. -/
theorem closesLess_fillPieces {operands : List (Node × Text)}
    (hOperands : ∀ operand ∈ operands, KeepsOpen operand.2) (pieces : List Piece) :
    ClosesLess (fillPieces pieces []) (fillPieces pieces operands) := by
  have hGroup : ∀ (node : Node) {markup : Text}, KeepsOpen markup →
      KeepsOpen (node.group markup) := by
    intro node markup hMarkup
    unfold Node.group
    split
    · intro slash
      have hOpen : Passes ['('] slash false := by cases slash <;> decide
      have hClose : Passes [')'] false slash := .inl rfl
      exact (hOpen.append (hMarkup false)).append hClose
    · exact hMarkup
  have hSlot : ∀ {piece : Piece}, piece.fill [] = [] →
      ClosesLess (piece.fill []) (piece.fill operands) := by
    intro piece hEmpty
    have hKeeps : KeepsOpen (piece.fill operands) := piece.forall_fill (hEmpty ▸ .nil) hOperands
      fun operand hOperand => hGroup operand.1 (hOperands operand hOperand)
    have hMore := (ClosesLess.refl []).prepend hKeeps
    rw [List.append_nil] at hMore
    rw [hEmpty]
    exact hMore
  induction pieces with
  | nil => exact .refl []
  | cons piece rest ih =>
    have hPiece : ClosesLess (piece.fill []) (piece.fill operands) := by
      cases piece with
      | text markup => exact .refl markup
      | operand index => exact hSlot rfl
      | grouped index => exact hSlot rfl
    exact hPiece.append ih

/-- Between rows that keep math open, a separator ends none where it does not without them. -/
theorem passes_intercalate {separator : Text} {slash : Bool}
    (hSeparator : Passes separator slash slash) {markups : List Text}
    (hMarkups : ∀ markup ∈ markups, KeepsOpen markup) :
    Passes (separator.intercalate markups) slash slash :=
  @forall_intercalate (fun text => Passes text slash slash) separator (.nil slash)
    (fun hFirst hSecond => (hFirst.append hSeparator).append hSecond) markups
    fun markup hMarkup => hMarkups markup hMarkup slash

/-- With operands that keep math open, so does the layout. -/
def Layout.keepsOpen : Layout → Bool
  | .fixed pieces => decide (KeepsOpen (fillPieces pieces []))
  | .series opening separator closing =>
    [true, false].all fun slash => [true, false].any fun between =>
      decide (Passes opening slash between ∧ Passes separator between between ∧
        Passes closing between slash)
  | _ => true

theorem Layout.keepsOpen_ofTag (tag : Tag) : (Layout.ofTag tag).keepsOpen := by
  have hAll : ∀ tag ∈ Tag.all, (Layout.ofTag tag).keepsOpen = true := by decide +kernel
  exact hAll tag tag.mem_all

theorem keepsOpen_fixed {tag : Tag} {pieces : List Piece}
    (hLayout : Layout.ofTag tag = .fixed pieces) {operands : List (Node × Text)}
    (hOperands : ∀ operand ∈ operands, KeepsOpen operand.2) :
    KeepsOpen (fillPieces pieces operands) := by
  have hEmpty := Layout.keepsOpen_ofTag tag
  rw [hLayout] at hEmpty
  exact (of_decide_eq_true hEmpty).of_closesLess (closesLess_fillPieces hOperands pieces)

theorem keepsOpen_series {tag : Tag} {opening separator closing : Text}
    (hLayout : Layout.ofTag tag = .series opening separator closing) {markups : List Text}
    (hMarkups : ∀ markup ∈ markups, KeepsOpen markup) :
    KeepsOpen (opening ++ separator.intercalate markups ++ closing) := by
  intro slash
  have hEmpty := Layout.keepsOpen_ofTag tag
  rw [hLayout] at hEmpty
  have hSlash := List.all_eq_true.mp hEmpty slash (by cases slash <;> decide)
  obtain ⟨between, -, hBetween⟩ := List.any_eq_true.mp hSlash
  obtain ⟨hOpening, hSeparator, hClosing⟩ := of_decide_eq_true hBetween
  exact (hOpening.append (passes_intercalate hSeparator hMarkups)).append hClosing

/-! ## Trees -/

/-- What a node needs for its markup to keep math open: a tree without backslashes, no bare value
that begins with a closing parenthesis and, if it is a template, arguments that are cut out of it as
they are put in. -/
structure IsUnclosing (settings : Settings) (node : Node) : Prop where
  plain : ∀ below ∈ node.visits, below.IsPlain
  first : ∀ tag ∈ bareTags, node.tag? = some tag → ∀ text ∈ node.reads, text.head? ≠ some ')'
  args : node.tag? = some .template → ∀ arg ∈ node.visited, ∀ part,
    (fragment settings arg).outcome = .ok part →
      '\n' ∉ part ∧ mentions "ARG".toList part = false

theorem IsUnclosing.not_mem {settings : Settings} {node : Node} (h : IsUnclosing settings node)
    {text : Text} (hText : text ∈ node.reads) : '\\' ∉ text := by
  obtain ⟨owner, hOwner, hOwn⟩ := Node.exists_of_mem_reads (.self node) hText
  exact (h.plain owner hOwner).value text hOwn

theorem fragment_of_render {settings : Settings} {node : Node} {raw : Text}
    (h : (render settings node).outcome = .ok raw) :
    (fragment settings node).outcome = .ok (Markup.wrap .inline (Markup.finish settings raw)) := by
  rw [fragment, convertAs, Run.outcome_bind_of_ok h]
  rfl

/-- An argument that is cut out of its template as it was put in. -/
theorem isCalm_of_fragment {settings : Settings} {arg : Node} {raw : Text}
    (hRaw : (render settings arg).outcome = .ok raw) (hOpen : KeepsOpen raw)
    (hPart : ∀ part, (fragment settings arg).outcome = .ok part →
      '\n' ∉ part ∧ mentions "ARG".toList part = false) :
    IsCalm (Markup.finish settings raw) := by
  obtain ⟨hLine, hName⟩ := hPart _ (fragment_of_render hRaw)
  rw [mentions_wrap] at hName
  refine ⟨fun hMem => hLine ?_, hOpen.of_closesLess (Markup.closesLess_finish settings raw), hName⟩
  rw [wrap_inline]
  exact List.mem_append_left _ (List.mem_append_right _ hMem)

/-- Every layout passes on that math is kept open. -/
theorem openRule (settings : Settings) :
    MarkupRule settings (IsUnclosing settings) fun _ raw => KeepsOpen raw where
  value hFine hTag hLayout hText := keepsOpen_write (hFine.not_mem hText) fun hForm =>
    hFine.first _ (mem_bareTags hLayout hForm) hTag _ hText
  repeating hFine hTag hDecimal hMarkup :=
    keepsOpen_format hMarkup (hFine.not_mem hDecimal)
      (hFine.first _ (by decide) hTag _ hDecimal)
  fixed _ _ hLayout hMarkups := by
    have hOpen := forall_mem_of_forall₂ hMarkups fun _ _ _ h => h
    exact keepsOpen_fixed hLayout fun operand hOperand => hOpen _ (List.of_mem_zip hOperand).2
  series _ _ hLayout hMarkups :=
    keepsOpen_series hLayout (forall_mem_of_forall₂ hMarkups fun _ _ _ h => h)
  template {node text raws} hFine hTag hText hRaws := by
    have hInners : ∀ raw ∈ raws, IsCalm (Markup.finish settings raw) :=
      forall_mem_of_forall₂ hRaws fun arg hArg raw hRaw =>
        isCalm_of_fragment hRaw.2 hRaw.1 (hFine.args hTag arg hArg)
    have hMap : raws.map (fun raw => Markup.wrap .inline (Markup.finish settings raw)) =
        (raws.map (Markup.finish settings)).map (Markup.wrap .inline) := by
      rw [List.map_map]
      rfl
    rw [hMap]
    refine keepsOpen_localize_fill (fun inner hInner => ?_) _ (hFine.not_mem hText)
    obtain ⟨raw, hRaw, rfl⟩ := List.mem_map.mp hInner
    exact hInners raw hRaw
  dump hFine _ := Node.keepsOpen_dump hFine.plain

/-! ## Lines -/

theorem Layout.newline_not_mem {tag : Tag} {word : Text} (h : word ∈ (Layout.ofTag tag).words) :
    '\n' ∉ word := by
  have hAll : ∀ tag ∈ Tag.all, ∀ word ∈ (Layout.ofTag tag).words, '\n' ∉ word := by
    decide +kernel
  exact hAll tag tag.mem_all word h

theorem mem_fill {operands : List (Node × Text)} {piece : Piece} {c : Char} :
    c ∈ piece.fill operands →
      c ∈ piece.fill [] ∨ (∃ operand ∈ operands, c ∈ operand.2) ∨ c = '(' ∨ c = ')' := by
  refine @Piece.forall_fill (fun text => c ∈ text → c ∈ piece.fill [] ∨
    (∃ operand ∈ operands, c ∈ operand.2) ∨ c = '(' ∨ c = ')') operands piece .inl
    (fun operand hOperand hMem => .inr (.inl ⟨operand, hOperand, hMem⟩)) ?_
  intro operand hOperand hMem
  unfold Node.group at hMem
  split at hMem
  · rcases List.mem_append.mp hMem with hFront | hClose
    · rcases List.mem_cons.mp hFront with rfl | hMarkup
      · exact .inr (.inr (.inl rfl))
      · exact .inr (.inl ⟨operand, hOperand, hMarkup⟩)
    · exact .inr (.inr (.inr (List.mem_singleton.mp hClose)))
  · exact .inr (.inl ⟨operand, hOperand, hMem⟩)

theorem mem_intercalate {separator : Text} {markups : List Text} {c : Char} :
    c ∈ separator.intercalate markups → c ∈ separator ∨ ∃ markup ∈ markups, c ∈ markup := by
  refine @forall_intercalate (fun text => c ∈ text → c ∈ separator ∨ ∃ markup ∈ markups, c ∈ markup)
    separator (fun hMem => nomatch hMem) ?_ markups
    fun markup hMarkup hMem => .inr ⟨markup, hMarkup, hMem⟩
  intro first second hFirst hSecond hMem
  rcases List.mem_append.mp hMem with hFront | hBehind
  · exact (List.mem_append.mp hFront).elim hFirst .inl
  · exact hSecond hBehind

/-- Every layout passes on that there is one line. -/
theorem lineRule (settings : Settings) :
    MarkupRule settings (fun node => ∀ below ∈ node.visits, ∀ text, below.text? = some text →
      '\n' ∉ text) fun _ raw => '\n' ∉ raw where
  value {node tag form text} hFine _ _ hText hMem := by
    obtain ⟨owner, hOwner, hOwn⟩ := Node.exists_of_mem_reads (.self node) hText
    rcases mem_write hMem with hHere | hAdded
    · exact hFine owner hOwner text hOwn hHere
    · revert hAdded
      decide
  repeating {node decimal markup count} hFine _ hDecimal hMarkup hMem := by
    obtain ⟨owner, hOwner, hOwn⟩ := Node.exists_of_mem_reads (.self node) hDecimal
    rcases mem_format hMarkup hMem with hHere | hAdded
    · exact hFine owner hOwner decimal hOwn hHere
    · revert hAdded
      decide
  fixed {node tag pieces markups} _ _ hLayout hMarkups hMem := by
    have hLines := forall_mem_of_forall₂ hMarkups fun _ _ _ h => h
    obtain ⟨piece, hPiece, hFill⟩ := List.mem_flatMap.mp hMem
    rcases mem_fill hFill with hHere | ⟨operand, hOperand, hBelow⟩ | hParen | hParen
    · refine @Layout.newline_not_mem tag _ ?_ hHere
      rw [hLayout]
      exact List.mem_map_of_mem hPiece
    · exact hLines _ (List.of_mem_zip hOperand).2 hBelow
    · cases hParen
    · cases hParen
  series {node tag opening separator closing markups} _ _ hLayout hMarkups hMem := by
    have hLines := forall_mem_of_forall₂ hMarkups fun _ _ _ h => h
    have hWords : ∀ word ∈ [opening, separator, closing], '\n' ∉ word := by
      intro word hWord
      refine @Layout.newline_not_mem tag word ?_
      rw [hLayout]
      exact hWord
    rcases List.mem_append.mp hMem with hFront | hClosing
    · rcases List.mem_append.mp hFront with hOpening | hMiddle
      · exact hWords opening (by simp) hOpening
      · rcases mem_intercalate hMiddle with hSeparator | ⟨markup, hMarkup, hBelow⟩
        · exact hWords separator (by simp) hSeparator
        · exact hLines markup hMarkup hBelow
    · exact hWords closing (by simp) hClosing
  template {node text raws} hFine _ hText hRaws := by
    obtain ⟨owner, hOwner, hOwn⟩ := Node.exists_of_mem_reads (.self node) hText
    refine newline_not_mem_localize_fill (fun value hValue => ?_) (hFine owner hOwner text hOwn)
    obtain ⟨raw, hRaw, rfl⟩ := List.mem_map.mp hValue
    have hLine : '\n' ∉ raw := forall_mem_of_forall₂ hRaws (fun _ _ _ h => h.1) raw hRaw
    have hFinish := @Markup.newline_not_mem_finish settings raw hLine
    rw [wrap_inline]
    simpa using hFinish
  dump hFine _ := Node.newline_not_mem_dump hFine

/-! ## Reading back -/

theorem mathSpan?_slice {inner : Text} (hClosing : mentions "\\)".toList inner = false)
    (rest : Text) :
    Segment.mathSpan? ((Segment.math inner).slice ++ rest) =
      if inner = [] ∨ '\n' ∈ inner then none else some (.math inner, rest) := by
  have hText : (Segment.math inner).slice ++ rest =
      '\\' :: '(' :: (inner ++ "\\)".toList ++ rest) := by
    simp [Segment.slice]
  rw [hText, Segment.mathSpan?, Segment.cutAtClosing_append hClosing]

/-- A fragment is its markup between delimiters. Where the markup does not hold the closing one, it
is read back as one span and passes into the markup of the text, unless it is empty or broken over
lines, and then no span is read. The markup does not hold the closing delimiter when no kind has a
backslash, no value that is read begins with a parenthesis, and the arguments of templates stay on
one line and mention no placeholder; it stays on one line when the literals do. -/
theorem mathSpan?_fragment (settings : Settings) {node : Node} {part : Text}
    (hLiterals : ∀ below ∈ node.visits, ∀ text, below.text? = some text → '\\' ∉ text)
    (hPart : (fragment settings node).outcome = .ok part) :
    ∃ inner, part = (Segment.math inner).slice ∧
      (mentions "\\)".toList inner = false → ∀ rest,
        Segment.mathSpan? (part ++ rest) =
            (if inner = [] ∨ '\n' ∈ inner then none else some (.math inner, rest)) ∧
          (¬(inner = [] ∨ '\n' ∈ inner) → localize (part ++ rest) = inner ++ localize rest)) ∧
      ((∀ below ∈ node.visits, '\\' ∉ below.kind) →
        (∀ below, node.Reaches below → ∀ tag ∈ bareTags, below.tag? = some tag →
          ∀ text ∈ below.reads, text.head? ≠ some ')') →
        (∀ below, node.Reaches below → below.tag? = some .template →
          ∀ arg ∈ below.visited, ∀ span, (fragment settings arg).outcome = .ok span →
            '\n' ∉ span ∧ mentions "ARG".toList span = false) →
        mentions "\\)".toList inner = false) ∧
      ((∀ below ∈ node.visits, ∀ text, below.text? = some text → '\n' ∉ text) →
        '\n' ∉ inner) := by
  obtain ⟨raw, hRaw, hDelimited⟩ := Run.exists_of_outcome_bind_ok hPart
  cases hDelimited
  have hReached : ∀ below, node.Reaches below → ∀ other ∈ below.visits, other ∈ node.visits :=
    fun below hBelow other hOther =>
      Node.mem_visits_trans (Node.mem_visits_of_reaches hBelow) hOther
  refine ⟨Markup.finish settings raw, by simp [Segment.slice, wrap_inline], ?_, ?_, ?_⟩
  · intro hClosing rest
    have hSlice : Markup.wrap .inline (Markup.finish settings raw) =
        (Segment.math (Markup.finish settings raw)).slice := by
      simp [Segment.slice, wrap_inline]
    refine ⟨by rw [hSlice, mathSpan?_slice hClosing], fun hInner => ?_⟩
    obtain ⟨hNe, hLine⟩ := not_or.mp hInner
    have hSegments := segments_span hNe hLine hClosing rest
    rw [wrap_inline, localize, hSegments]
    rfl
  · intro hKinds hFirst hArgs
    have hFine : ∀ below, node.Reaches below → IsUnclosing settings below := fun below hBelow =>
      { plain := fun other hOther =>
          ⟨hKinds other (hReached below hBelow other hOther),
            hLiterals other (hReached below hBelow other hOther)⟩
        first := hFirst below hBelow
        args := hArgs below hBelow }
    have hOpen : KeepsOpen raw := (openRule settings).holds (Nat.le_refl _) hFine hRaw
    exact (hOpen.of_closesLess (Markup.closesLess_finish settings raw) false).mentions
  · intro hLines
    have hLine : '\n' ∉ raw := (lineRule settings).holds (Nat.le_refl _)
      (fun below hBelow other hOther => hLines other (hReached below hBelow other hOther)) hRaw
    exact Markup.newline_not_mem_finish hLine

/-- A column with a template in its second row, whose argument is a column with an empty tuple. -/
def nestedColumns : Node :=
  .ofChildren "vert_list".toList [.leaf "string".toList (.text "a) b".toList),
    .ofChildren "localized_text".toList [.leaf "string".toList (.text "key".toList),
      .leaf "string".toList (.text "en".toList), .leaf "string".toList (.text ") so ARG1".toList),
      .ofChildren "vert_list".toList [.leaf "var".toList (.text "x".toList),
        .ofChildren "order".toList []]]]

/-- The markup of `nestedColumns`. -/
def nestedColumnsMarkup : Text :=
  "\\begin\x7barray\x7d\x7bl\x7d\\text\x7ba) b\x7d\\\\".toList ++
    "\\text\x7b) so \x7d\\begin\x7barray\x7d\x7bl\x7dx\\\\()".toList ++
    "\\end\x7barray\x7d\\end\x7barray\x7d".toList

theorem mathSpan?_nestedColumns :
    (∀ below ∈ nestedColumns.visits, ∀ text, below.text? = some text → '\\' ∉ text) ∧
      (fragment {} nestedColumns).outcome = .ok (Segment.math nestedColumnsMarkup).slice ∧
      ∀ rest, Segment.mathSpan? ((Segment.math nestedColumnsMarkup).slice ++ rest) =
        some (.math nestedColumnsMarkup, rest) := by
  have hLiterals : ∀ below ∈ nestedColumns.visits, ∀ text ∈ below.text?, '\\' ∉ text := by
    decide +kernel
  have hPart : (fragment {} nestedColumns).outcome =
      .ok (Segment.math nestedColumnsMarkup).slice := by
    decide +kernel
  have hKinds : ∀ below ∈ nestedColumns.visits, '\\' ∉ below.kind := by decide +kernel
  have hFirst : ∀ below ∈ nestedColumns.visits, ∀ tag ∈ bareTags, below.tag? = some tag →
      ∀ text ∈ below.reads, text.head? ≠ some ')' := by
    decide +kernel
  have hArgs : ∀ below ∈ nestedColumns.visits, below.tag? = some .template →
      ∀ arg ∈ below.visited, ∀ span ∈ (fragment {} arg).outcome.toOption,
        '\n' ∉ span ∧ mentions "ARG".toList span = false := by
    decide +kernel
  refine ⟨hLiterals, hPart, fun rest => ?_⟩
  obtain ⟨inner, hSlice, hRead, hClosing, -⟩ := mathSpan?_fragment {} hLiterals hPart
  obtain rfl : nestedColumnsMarkup = inner := by
    have hTail := (List.cons.inj (List.cons.inj hSlice).2).2
    exact List.append_cancel_right hTail
  have hNone := hClosing hKinds
    (fun below hBelow => hFirst below (Node.mem_visits_of_reaches hBelow))
    (fun below hBelow hTag arg hArg span hSpan =>
      hArgs below (Node.mem_visits_of_reaches hBelow) hTag arg hArg span (by rw [hSpan]; rfl))
  rw [(hRead hNone rest).1]
  exact if_neg (by decide)

/-- A list without items. -/
def emptyList : Node := .ofChildren "list".toList []

/-- A name that is broken over two lines. -/
def brokenName : Node := .leaf "var".toList (.text "a\nb".toList)

/-- Neither an empty list nor a name that is broken over lines is read back. -/
theorem mathSpan?_fragment_eq_none :
    (∀ node ∈ [emptyList, brokenName], ∀ below ∈ node.visits, ∀ text ∈ below.text?, '\\' ∉ text) ∧
      ((fragment {} emptyList).outcome = .ok "\\(\\)".toList ∧
        ∀ rest, Segment.mathSpan? ("\\(\\)".toList ++ rest) = none) ∧
      ((fragment {} brokenName).outcome = .ok "\\(a\nb\\)".toList ∧
        ∀ rest, Segment.mathSpan? ("\\(a\nb\\)".toList ++ rest) = none) := by
  refine ⟨by decide +kernel, ⟨by decide +kernel, fun rest => ?_⟩, by decide +kernel, fun rest => ?_⟩
  · have hSlice : "\\(\\)".toList = (Segment.math []).slice := by decide
    rw [hSlice, mathSpan?_slice (by decide), if_pos (.inl rfl)]
  · have hSlice : "\\(a\nb\\)".toList = (Segment.math "a\nb".toList).slice := by decide
    rw [hSlice, mathSpan?_slice (by decide), if_pos (.inr (by decide))]

end Formulary
