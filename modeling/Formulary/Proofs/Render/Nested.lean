import Formulary.Proofs.Delimiter.Nested
import Formulary.Proofs.Render.Carried

/-!
# Converted trees are nested

Without half-open intervals, templates and kinds that have no layout, the markup of a tree whose
literals hold no bracket and no backslash is orderly (`orderlyRule`): every layout closes what it
opens around its operands, and ends in a quiet lead. Its delimiters are then sized without crossing
a brace, when pipes are left alone (`isNested_brackets_convert`).
-/

namespace Formulary

open Text Delimiter

/-! ## Values -/

/-- The braces that are open at a spot. -/
def IndexSpot.stack {Kind : Type} (brace : Kind) : IndexSpot → List Kind
  | .inside => [brace]
  | .outside | .behind => []

/-- Braces around indices are closed, whatever else is read in a name. -/
theorem nest_braceIndicesFrom {Kind : Type} [DecidableEq Kind] {brace : Kind}
    {read : Char → List (Sign Kind)} (hOpen : read '\x7b' = [.opening brace])
    (hClose : read '\x7d' = [.closing brace]) {text : Text} (h : ∀ c ∈ text, IsNested (read c))
    (spot : IndexSpot) :
    nest (spot.stack brace) ((braceIndicesFrom spot text).flatMap read) = some [] := by
  induction text generalizing spot with
  | nil =>
    cases spot with
    | outside => rfl
    | behind => rfl
    | inside => rw [braceIndicesFrom, List.flatMap_singleton, hClose, nest, IndexSpot.stack,
        step_closing, Option.bind_some, nest]
  | cons c rest ih =>
    have hRest := ih fun d hd => h d (List.mem_cons_of_mem _ hd)
    have hPass : ∀ (stack : List Kind) (word : List (Sign Kind)),
        nest stack (read c ++ word) = nest stack word :=
      fun stack word => nest_append_of_eq ((h c List.mem_cons_self).nest_eq stack) word
    have hAfter : (IndexSpot.after c).stack brace = [] := by
      unfold IndexSpot.after
      split <;> rfl
    have hOutside := hRest (.after c)
    rw [hAfter] at hOutside
    cases spot with
    | outside =>
      rw [braceIndicesFrom, List.flatMap_cons, hPass]
      exact hOutside
    | behind =>
      rw [braceIndicesFrom]
      split
      · rw [List.flatMap_cons, List.flatMap_cons, hOpen]
        exact (hPass [brace] _).trans (hRest .inside)
      · rw [List.flatMap_cons, hPass]
        exact hOutside
    | inside =>
      rw [braceIndicesFrom]
      split
      · rw [List.flatMap_cons, hPass]
        exact hRest .inside
      · rw [List.flatMap_cons, List.flatMap_cons, hClose, List.singleton_append, nest,
          IndexSpot.stack, step_closing, Option.bind_some, hPass]
        exact hOutside

theorem isOrderly_braceIndices {text : Text} (h : ∀ c ∈ bracketChars, c ∉ text) :
    IsOrderly (braceIndices text) := by
  have hSlash := slash_not_mem_braceIndices (h '\\' (by decide))
  refine ⟨by rw [through_of_not_mem hSlash]; rfl, ?_, ?_⟩
  · rw [IsNested, signs_of_not_mem hSlash]
    have hRead : ∀ c ∈ text, IsNested (if c = '|' then [.pipe] else charSigns c) := by
      intro c hc
      split
      · rfl
      · rw [charSigns_of_not_mem fun hMem => h c hMem hc]
        exact .nil
    exact nest_braceIndicesFrom rfl rfl hRead .outside
  · rw [signs_of_not_mem hSlash]
    intro hMem
    obtain ⟨c, -, hSign⟩ := List.mem_flatMap.mp hMem
    split at hSign
    · cases List.mem_singleton.mp hSign
    · exact (ne_of_mem_charSigns hSign).2 rfl

/-! ## Layouts -/

/-- Orderly markup may be put into orderly markup. -/
theorem carried_orderly : Carried bracketChars EndsQuiet IsOrderly where
  nil := isOrderly_nil
  cut h := h.quiet
  cutAppend hFirst hSecond := isQuiet_append hFirst hSecond
  insert hFirst h hInner := .insert hFirst h hInner
  plain h := isOrderly_of_not_mem h
  indexed h := isOrderly_braceIndices h
  space := by decide
  comma := by decide
  proseCut := by decide
  prose := by decide
  parenCut := by decide
  parens := by decide

/-- The tags of intervals with one end in them. -/
def halfOpenTags : List Tag := [.closedOpenInterval, .openClosedInterval]

theorem Layout.carries_orderly {tag : Tag} (h : tag ∉ halfOpenTags) :
    (Layout.ofTag tag).Carries EndsQuiet IsOrderly := by
  have hAll : ∀ tag ∈ Tag.all, tag ∉ halfOpenTags →
      (Layout.ofTag tag).Carries EndsQuiet IsOrderly := by
    decide +kernel
  exact hAll tag tag.mem_all h

/-! ## Trees -/

/-- A node that is neither a half-open interval nor a template nor of a kind without a layout, and
takes no bracket and no backslash from literals. -/
structure IsTidy (node : Node) : Prop where
  tagged : node.tag? ≠ none
  closed : ∀ tag ∈ .template :: halfOpenTags, node.tag? ≠ some tag
  plain : ∀ text ∈ node.reads, ∀ c ∈ bracketChars, c ∉ text

instance (node : Node) : Decidable (IsTidy node) :=
  decidable_of_iff (node.tag? ≠ none ∧ (∀ tag ∈ .template :: halfOpenTags, node.tag? ≠ some tag) ∧
    ∀ text ∈ node.reads, bracketChars.all fun c => c ∉ text)
    ⟨fun ⟨hTagged, hClosed, hPlain⟩ =>
      ⟨hTagged, hClosed, fun text hText => List.all_iff_forall_prop.mp (hPlain text hText)⟩,
      fun h => ⟨h.tagged, h.closed, fun text hText =>
        List.all_iff_forall_prop.mpr (h.plain text hText)⟩⟩

theorem IsTidy.not_mem {node : Node} (h : IsTidy node) {tag : Tag} (hTag : node.tag? = some tag) :
    tag ∉ halfOpenTags :=
  fun hMem => h.closed tag (List.mem_cons_of_mem _ hMem) hTag

/-- Every layout passes on that markup is orderly. -/
theorem orderlyRule (settings : Settings) :
    MarkupRule settings IsTidy fun _ raw => IsOrderly raw :=
  carried_orderly.rule IsTidy.tagged IsTidy.plain
    (fun hTidy hTag => Layout.carries_orderly (hTidy.not_mem hTag))
    fun hTidy hTag _ _ => absurd hTag (hTidy.closed _ List.mem_cons_self)

/-- The markup of a tidy tree is orderly, before and after its first two stages. -/
theorem isOrderly_of_render {settings : Settings} {node : Node} {raw : Text}
    (hTidy : ∀ below, node.Reaches below → IsTidy below)
    (hRaw : (render settings node).outcome = .ok raw) : IsOrderly (unsizedMarkup settings raw) := by
  have hOrderly : IsOrderly raw := (orderlyRule settings).holds (Nat.le_refl _) hTidy hRaw
  exact hOrderly.of_rereads (padded_unsizedMarkup settings raw)

/-- A converted tree has the brackets of its sized markup. -/
theorem exists_of_convert {settings : Settings} {node : Node} {out : Text}
    (hTidy : ∀ below, node.Reaches below → IsTidy below)
    (hOut : (convert settings node).outcome = .ok out) :
    ∃ raw, (render settings node).outcome = .ok raw ∧ IsOrderly (unsizedMarkup settings raw) ∧
      brackets out = brackets (size settings.pipeSizing (unsizedMarkup settings raw)) := by
  obtain ⟨raw, hRaw, hWrap⟩ := Run.exists_of_outcome_bind_ok hOut
  cases hWrap
  have hOrderly := isOrderly_of_render hTidy hRaw
  refine ⟨raw, hRaw, hOrderly, brackets_wrap ?_ _⟩
  have hThrough := through_size settings.pipeSizing (unsizedMarkup settings raw)
  rw [show Markup.finish settings raw = size settings.pipeSizing (unsizedMarkup settings raw)
    from rfl, hThrough]
  exact hOrderly.quiet

/-- With pipes left alone, no sized parenthesis of a converted tree crosses a brace: braces and
sized delimiters are nested, each kind closed by itself. -/
theorem isNested_brackets_convert {settings : Settings} (hPipes : settings.pipeSizing = .off)
    {node : Node} {out : Text} (hTidy : ∀ below, node.Reaches below → IsTidy below)
    (hOut : (convert settings node).outcome = .ok out) : IsNested (brackets out) := by
  obtain ⟨raw, -, hOrderly, hBrackets⟩ := exists_of_convert hTidy hOut
  rw [hBrackets, hPipes]
  exact isNested_brackets_size_off hOrderly

/-- A column of an open interval and a name with a pipe. -/
def intervalColumn : Node :=
  .ofChildren "vert_list".toList [
    .ofChildren "ooint".toList [
      .ofChildren "frac".toList [.leaf "const".toList (.text "1".toList),
        .leaf "const".toList (.text "2".toList)],
      .leaf "var".toList (.text "x_1".toList)],
    .leaf "string".toList (.text "a|b".toList)]

/-- The markup of `intervalColumn`. -/
def intervalColumnMarkup : Text :=
  "\\(\\begin\x7barray\x7d\x7bl\x7d\\left(\\frac\x7b1\x7d\x7b2\x7d;x_\x7b1\x7d\\right)".toList ++
    "\\\\\\text\x7ba|b\x7d\\end\x7barray\x7d\\)".toList

theorem isNested_brackets_intervalColumn :
    (∀ below, intervalColumn.Reaches below → IsTidy below) ∧
      (convert { pipeSizing := .off } intervalColumn).outcome = .ok intervalColumnMarkup ∧
      IsNested (brackets intervalColumnMarkup) := by
  have hVisits : ∀ below ∈ intervalColumn.visits, IsTidy below := by decide +kernel
  have hTidy : ∀ below, intervalColumn.Reaches below → IsTidy below :=
    fun below hBelow => hVisits below (Node.mem_visits_of_reaches hBelow)
  have hOut : (convert { pipeSizing := .off } intervalColumn).outcome =
      .ok intervalColumnMarkup := by
    decide +kernel
  exact ⟨hTidy, hOut, isNested_brackets_convert rfl hTidy hOut⟩

end Formulary
