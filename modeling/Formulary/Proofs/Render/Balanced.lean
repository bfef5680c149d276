import Formulary.Proofs.Markup.Brace
import Formulary.Proofs.Render.Nested

/-!
# The braces of converted trees

Every layout closes the braces that it opens around its operands, also where it leaves parentheses
open as half-open intervals do, and a literal without braces and backslashes adds balanced ones at
most. No stage changes this, whatever it sizes. So in a converted tree no part from the start closes
more braces than it opens, and the whole closes as many (`braces_convert`). Unlike the brackets of
sized delimiters, braces need no condition on the parentheses and pipes of literals.
-/

namespace Formulary

open Text

/-- The characters that bear on braces. -/
def braceChars : List Char := ['\\', '\x7b', '\x7d']

theorem braceSigns_of_not_mem {c : Char} (h : c ∉ braceChars) : braceSigns c = [] := by
  simp only [braceChars, List.mem_cons, List.not_mem_nil, or_false, not_or] at h
  rw [braceSigns, if_neg h.2.1, if_neg h.2.2]

theorem isMatched_braceIndices {text : Text} (h : ∀ c ∈ braceChars, c ∉ text) :
    IsMatched (braceIndices text) := by
  have hSlash := slash_not_mem_braceIndices (h '\\' (by decide))
  have hRead : ∀ c ∈ text, IsNested (braceSigns c) := by
    intro c hc
    rw [braceSigns_of_not_mem fun hMem => h c hMem hc]
    exact .nil
  refine ⟨by rw [EndsQuiet, through_of_not_mem hSlash]; rfl, ?_⟩
  rw [IsNested, braces_of_not_mem hSlash]
  exact nest_braceIndicesFrom rfl rfl hRead .outside

/-- Matched markup may be put into matched markup. -/
theorem carried_matched : Carried braceChars EndsQuiet IsMatched where
  nil := by decide
  cut h := h.quiet
  cutAppend hFirst hSecond := isQuiet_append hFirst hSecond
  insert hFirst h hInner := .insert hFirst h hInner
  plain h := .of_not_mem (h '\\' (by decide)) (h '\x7b' (by decide)) (h '\x7d' (by decide))
  indexed h := isMatched_braceIndices h
  space := by decide
  comma := by decide
  proseCut := by decide
  prose := by decide
  parenCut := by decide
  parens := by decide

theorem Layout.carries_matched (tag : Tag) : (Layout.ofTag tag).Carries EndsQuiet IsMatched := by
  have hAll : ∀ tag ∈ Tag.all, (Layout.ofTag tag).Carries EndsQuiet IsMatched := by
    decide +kernel
  exact hAll tag tag.mem_all

/-- A node with a layout, no template, that takes no brace and no backslash from literals. -/
structure IsBraceFree (node : Node) : Prop where
  tagged : node.tag? ≠ none
  noTemplate : node.tag? ≠ some .template
  plain : ∀ text ∈ node.reads, ∀ c ∈ braceChars, c ∉ text

instance (node : Node) : Decidable (IsBraceFree node) :=
  decidable_of_iff (node.tag? ≠ none ∧ node.tag? ≠ some .template ∧
    ∀ text ∈ node.reads, braceChars.all fun c => c ∉ text)
    ⟨fun ⟨hTagged, hTemplate, hPlain⟩ =>
      ⟨hTagged, hTemplate, fun text hText => List.all_iff_forall_prop.mp (hPlain text hText)⟩,
      fun h => ⟨h.tagged, h.noTemplate, fun text hText =>
        List.all_iff_forall_prop.mpr (h.plain text hText)⟩⟩

/-- Every layout passes on that braces are matched. -/
theorem matchedRule (settings : Settings) :
    MarkupRule settings IsBraceFree fun _ raw => IsMatched raw :=
  carried_matched.rule IsBraceFree.tagged IsBraceFree.plain
    (fun {_ tag} _ _ => Layout.carries_matched tag)
    fun hFree hTag _ _ => absurd hTag hFree.noTemplate

/-- Under all settings the braces of a converted tree are balanced: of those that are not escaped,
no part from the start closes more than it opens, and the whole closes as many as it opens. -/
theorem braces_convert {settings : Settings} {node : Node} {out : Text}
    (hFree : ∀ below, node.Reaches below → IsBraceFree below)
    (hOut : (convert settings node).outcome = .ok out) :
    (∀ front, front <+: out → countBare '\x7d' front ≤ countBare '\x7b' front) ∧
      countBare '\x7d' out = countBare '\x7b' out := by
  obtain ⟨raw, hRaw, hWrap⟩ := Run.exists_of_outcome_bind_ok hOut
  cases hWrap
  have hMatched : IsMatched raw := (matchedRule settings).holds (Nat.le_refl _) hFree hRaw
  have hOuter : IsMatched (Markup.wrap settings.mathStyle (Markup.finish settings raw)) :=
    (hMatched.finish settings).wrap settings.mathStyle
  exact ⟨fun front hFront => hOuter.count_le hFront, hOuter.count_eq⟩

/-- A set beside a half-open interval, below a name with a pipe and a parenthesis that closes
nothing. -/
def unevenColumn : Node :=
  .ofChildren "vert_list".toList [
    .leaf "var".toList (.text "f_1|)".toList),
    .ofChildren "muli".toList [
      .ofChildren "set".toList [.leaf "const".toList (.text "0.5".toList),
        .leaf "var".toList (.text "ℕ".toList)],
      .ofChildren "ocint".toList [
        .ofChildren "frac".toList [.leaf "const".toList (.text "1".toList),
          .leaf "string".toList (.text "a)".toList)],
        .leaf "var".toList (.text "x".toList)]]]

/-- Display style, with display fractions and no sized pipes but the first two. -/
def displayChoices : Settings where
  displayFractions := true
  pipeSizing := .firstPair
  mathStyle := .display

/-- The markup of `unevenColumn`. -/
def unevenColumnMarkup : Text :=
  "\\[\\begin\x7barray\x7d\x7bl\x7df_\x7b1\x7d|)\\\\".toList ++
    "\\\x7b0\x7b,\x7d5, \\mathbb\x7bN\x7d \\\x7d".toList ++
    "\\left(\\dfrac\x7b1\x7d\x7b\\text\x7ba\\right)\x7d\x7d;x]\\end\x7barray\x7d\\]".toList

theorem braces_convert_unevenColumn :
    (∀ below, unevenColumn.Reaches below → IsBraceFree below) ∧
      (convert displayChoices unevenColumn).outcome = .ok unevenColumnMarkup ∧
      (∀ front, front <+: unevenColumnMarkup → countBare '\x7d' front ≤ countBare '\x7b' front) ∧
      countBare '\x7d' unevenColumnMarkup = countBare '\x7b' unevenColumnMarkup := by
  have hVisits : ∀ below ∈ unevenColumn.visits, IsBraceFree below := by decide +kernel
  have hFree : ∀ below, unevenColumn.Reaches below → IsBraceFree below :=
    fun below hBelow => hVisits below (Node.mem_visits_of_reaches hBelow)
  have hOut : (convert displayChoices unevenColumn).outcome = .ok unevenColumnMarkup := by
    decide +kernel
  exact ⟨hFree, hOut, braces_convert hFree hOut⟩

end Formulary
