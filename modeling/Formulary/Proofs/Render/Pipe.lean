import Formulary.Proofs.Markup.Pipe
import Formulary.Proofs.Render.Carried
import Formulary.Proofs.Render.Filled
import Formulary.Proofs.Render.Word
import Formulary.Proofs.Tree.Dump
import Mathlib.Algebra.BigOperators.Group.List.Basic
import Mathlib.Algebra.GroupWithZero.Nat
import Mathlib.Algebra.Order.BigOperators.Group.List

/-!
# Sized pipes of converted trees

Where only the first pair of pipes is sized, every run of the stages adds at most one sized pipe of
each side. The stages run over the whole markup at the end, and before that over every argument of a
template. A template takes its arguments as finished fragments, so each fragment brings its own
pair, as often as it is put in. `Node.insertions` counts the fragments that are put in, at any
depth, and a converted tree has at most one sized pipe of each side more than that
(`sizedPipes_convert`).

The fragments must be read back from the filled text as they were put in. For this the finished
markup of every argument that a visited template has, put in or not, is asked to be empty, or to
stand on one line and to hold neither the closing delimiter `\)` nor the letters `ARG`, whether or
not a later argument captures them (`IsInner`).

Layouts bring in no sized pipe and use each operand once, so they add up what their operands have.
-/

namespace Formulary

open Text Placeholder Delimiter

/-! ## Layouts -/

/-- Markup with at most so many sized pipes of a side. -/
structure HasAtMost (side : Side) (count : Nat) (text : Text) : Prop where
  blunt : EndsBlunt text
  pipes : sizedPipes side text ≤ count

section

variable {side : Side} {count more : Nat} {first second : Text}

theorem IsQuiet.hasAtMost (h : IsQuiet first) (side : Side) (count : Nat) :
    HasAtMost side count first := by
  refine ⟨h.blunt, ?_⟩
  rw [h.pipes side]
  exact Nat.zero_le count

theorem HasAtMost.mono (h : HasAtMost side count first) (hLe : count ≤ more) :
    HasAtMost side more first :=
  ⟨h.blunt, Nat.le_trans h.pipes hLe⟩

theorem HasAtMost.append (hFirst : HasAtMost side count first)
    (hSecond : HasAtMost side more second) : HasAtMost side (count + more) (first ++ second) := by
  refine ⟨hFirst.blunt.append hSecond.blunt, ?_⟩
  rw [sizedPipes_append hFirst.blunt]
  exact Nat.add_le_add hFirst.pipes hSecond.pipes

/-- Quiet markup in front and behind adds no pipe. -/
theorem HasAtMost.between {opening closing : Text} (h : HasAtMost side count first)
    (hOpening : IsQuiet opening) (hClosing : IsQuiet closing) :
    HasAtMost side count (opening ++ first ++ closing) := by
  have hBoth := ((hOpening.hasAtMost side 0).append h).append (hClosing.hasAtMost side 0)
  rwa [Nat.zero_add, Nat.add_zero] at hBoth

theorem HasAtMost.group (h : HasAtMost side count first) (node : Node) :
    HasAtMost side count (node.group first) := by
  unfold Node.group
  split
  · have hOpening : IsQuiet ['('] := by decide
    exact h.between hOpening (by decide)
  · exact h

end

theorem carried_quiet : Carried ['\\'] EndsBlunt IsQuiet where
  nil := by decide
  cut h := h.blunt
  cutAppend hFirst hSecond := hFirst.append hSecond
  insert {first second inner} hFirst h hInner := by
    have hCount : ∀ side, sizedPipes side (first ++ inner ++ second) = 0 := by
      intro side
      have hOuter := h.pipes side
      rw [sizedPipes_append hFirst] at hOuter
      rw [sizedPipes_append (hFirst.append hInner.blunt), sizedPipes_append hFirst,
        hInner.pipes side]
      exact hOuter
    refine ⟨?_, hCount .left, hCount .right⟩
    have hEnds := h.blunt
    rw [EndsBlunt, through_append] at hEnds ⊢
    rcases keepsLetters_isBlunt.through hFirst (hFirst.append hInner.blunt) second
      with hSame | ⟨-, hBehind⟩
    · rwa [← hSame]
    · exact hBehind
  plain h := .of_not_mem (h '\\' List.mem_cons_self)
  indexed h := .of_not_mem (slash_not_mem_braceIndices (h '\\' List.mem_cons_self))
  space := by decide
  comma := by decide
  proseCut := by decide
  prose := by decide
  parenCut := by decide
  parens := by decide

theorem Layout.isQuiet_words (tag : Tag) : ∀ word ∈ (Layout.ofTag tag).words, IsQuiet word := by
  have hAll : ∀ tag ∈ Tag.all, ∀ word ∈ (Layout.ofTag tag).words, IsQuiet word := by
    decide +kernel
  exact hAll tag tag.mem_all

/-- The operand that a piece stands for. -/
def Piece.index? : Piece → Option Nat
  | .text _ => none
  | .operand index | .grouped index => some index

/-- A layout uses each of its operands once. -/
theorem Layout.perm_indices {tag : Tag} {pieces : List Piece}
    (h : Layout.ofTag tag = .fixed pieces) :
    (pieces.filterMap Piece.index?).Perm (List.range tag.arity) := by
  cases tag <;> first | cases h; decide | cases h

/-- Pieces have the sized pipes of the operands that they stand for. -/
theorem hasAtMost_fillPieces {side : Side} {operands : List (Node × Text)} {counts : Nat → Nat}
    (hOperands : ∀ index operand, operands[index]? = some operand →
      HasAtMost side (counts index) operand.2) {pieces : List Piece}
    (hWords : ∀ word ∈ pieces.map (Piece.fill []), IsQuiet word) :
    HasAtMost side ((pieces.filterMap Piece.index?).map counts).sum
      (fillPieces pieces operands) := by
  have hNone : IsQuiet [] := by decide
  induction pieces with
  | nil => exact hNone.hasAtMost side 0
  | cons piece rest ih =>
    obtain ⟨hWord, hRest⟩ := List.forall_mem_cons.mp hWords
    have hLater := ih hRest
    rw [fillPieces, List.flatMap_cons]
    cases piece with
    | text markup =>
      rw [List.filterMap_cons, Piece.index?, ← Nat.zero_add (List.sum _)]
      exact (hWord.hasAtMost side 0).append hLater
    | operand index =>
      rw [List.filterMap_cons, Piece.index?, List.map_cons, List.sum_cons]
      refine HasAtMost.append ?_ hLater
      rw [Piece.fill]
      cases hOperand : operands[index]? with
      | none => exact hNone.hasAtMost side _
      | some operand => exact hOperands index operand hOperand
    | grouped index =>
      rw [List.filterMap_cons, Piece.index?, List.map_cons, List.sum_cons]
      refine HasAtMost.append ?_ hLater
      rw [Piece.fill]
      cases hOperand : operands[index]? with
      | none => exact hNone.hasAtMost side _
      | some operand => exact (hOperands index operand hOperand).group operand.1

/-- Operands with a separator between them have the sized pipes of all operands. -/
theorem hasAtMost_intercalate {side : Side} {separator : Text} (hSeparator : IsQuiet separator)
    {counts : List Nat} {markups : List Text}
    (h : List.Forall₂ (fun count markup => HasAtMost side count markup) counts markups) :
    HasAtMost side counts.sum (separator.intercalate markups) := by
  have hNone : IsQuiet [] := by decide
  induction h with
  | nil => exact hNone.hasAtMost side 0
  | @cons count markup counts rest hHead hRest ih =>
    rw [List.sum_cons]
    cases rest with
    | nil =>
      cases hRest
      rwa [List.intercalate_singleton]
    | cons next rest =>
      have hBoth := hHead.append (hSeparator.hasAtMost side 0)
      rw [List.intercalate_cons_cons]
      exact hBoth.append ih

/-! ## Dumps -/

theorem isQuiet_escapeChar {c : Char} (hc : c ≠ '\r') : IsQuiet (Json.escapeChar c) := by
  unfold Json.escapeChar
  split
  · decide
  · decide
  · decide
  · decide
  · decide
  · exact absurd rfl hc
  · decide
  · rename_i hSlash _ _ _ _ _
    split
    · rename_i hControl
      have hDigits := (digits_of_control hControl).1
      have hOpening : IsQuiet "\\u".toList := by decide
      rw [Json.controlEscape, List.append_assoc]
      refine hOpening.append (.of_not_mem ?_)
      simp [hDigits]
    · exact .of_not_mem (by simpa using Ne.symm hSlash)

theorem isQuiet_printString {text : Text} (h : '\r' ∉ text) : IsQuiet (Json.printString text) := by
  have hBody : IsQuiet (text.flatMap Json.escapeChar) := by
    induction text with
    | nil => decide
    | cons c rest ih =>
      obtain ⟨hc, hRest⟩ := not_or.mp (mt List.mem_cons.mpr h)
      exact (isQuiet_escapeChar (Ne.symm hc)).append (ih hRest)
  have hQuote : IsQuiet ['"'] := by decide
  exact (hQuote.append hBody).append hQuote

/-- A node whose dump writes no `\r`. -/
structure Node.IsReturnFree (node : Node) : Prop where
  kind : '\r' ∉ node.kind
  value : ∀ text, node.text? = some text → '\r' ∉ text

/-- The dump of a tree brings in no sized pipe: no escape but that of a carriage return begins a
command of a side. -/
theorem isQuiet_dump {node : Node} (hPlain : ∀ below ∈ node.visits, ∀ text,
    below.text? = some text → '\\' ∉ text) (hFree : ∀ below ∈ node.visits, below.IsReturnFree) :
    IsQuiet node.dump := by
  have hRule : Node.DumpRule (fun below => below.IsReturnFree ∧
      ∀ text, below.text? = some text → '\\' ∉ text) IsQuiet :=
    { word := fun word _ hWord h => by
        have hAll : ∀ word ∈ Node.dumpWords, IsQuiet word := by decide
        exact (hAll word hWord).append h
      kind := fun hFine h => (isQuiet_printString hFine.1.kind).append h
      value := fun {below literal _} hFine hValue h => by
        have hText : below.text? = some literal.asText := by
          rw [Node.text?, hValue]
          rfl
        have hDump : IsQuiet literal.dump := by
          cases literal with
          | text content => exact isQuiet_printString (hFine.1.value content hText)
          | number content => exact .of_not_mem (hFine.2 _ hText)
        exact hDump.append h }
  have hNone : IsQuiet [] := by decide
  exact hRule.dumpBefore (fun below hBelow => ⟨hFree below hBelow, hPlain below hBelow⟩) hNone

/-! ## Fragments in templates -/

namespace Node

/-- How often each argument of a template is put into its text. -/
def argCopies (settings : Settings) (node : Node) : List Nat :=
  copies settings.substitution 1
    (node.visited.map fun arg => (fragment settings arg).outcome.toOption.getD [])
    (((node.children[2]?).bind text?).getD [])

/-- How many fragments are put into templates where a tree is rendered: every argument of a template
as often as it is put in, each time with those within it. -/
def insertions (settings : Settings) (node : Node) : Nat :=
  if node.tag? = some .template then
    (List.zipWith (· * ·) (node.argCopies settings)
      (node.visited.attach.map fun arg => insertions settings arg.1 + 1)).sum
  else (node.visited.attach.map fun below => insertions settings below.1).sum
termination_by sizeOf node
decreasing_by
  · exact sizeOf_lt_of_mem_visited arg.2
  · exact sizeOf_lt_of_mem_visited below.2

theorem insertions_of_template {settings : Settings} {node : Node}
    (hTag : node.tag? = some .template) :
    node.insertions settings = (List.zipWith (· * ·) (node.argCopies settings)
      (node.visited.map fun arg => arg.insertions settings + 1)).sum := by
  rw [insertions, if_pos hTag]
  simp

theorem insertions_of_ne {settings : Settings} {node : Node} (hTag : node.tag? ≠ some .template) :
    node.insertions settings = (node.visited.map (insertions settings)).sum := by
  rw [insertions, if_neg hTag]
  simp

/-- No fragment is put in where no template is rendered. -/
theorem insertions_eq_zero {settings : Settings} {node : Node}
    (h : ∀ below, node.Reaches below → below.tag? ≠ some .template) :
    node.insertions settings = 0 := by
  rw [insertions_of_ne (h node (.self node))]
  refine List.sum_eq_zero fun count hCount => ?_
  obtain ⟨below, hBelow, rfl⟩ := List.mem_map.mp hCount
  exact insertions_eq_zero fun other hOther => h other (.down hBelow hOther)
termination_by sizeOf node
decreasing_by exact sizeOf_lt_of_mem_visited hBelow

end Node

/-! ## Trees -/

theorem sum_repeated {weight : Text → Nat} (counts : List Nat) (values : List Text) :
    ((Laid.repeated counts values).map weight).sum =
      (List.zipWith (· * ·) counts (values.map weight)).sum := by
  induction counts generalizing values with
  | nil => rfl
  | cons count counts ih =>
    cases values with
    | nil => rfl
    | cons value values =>
      rw [Laid.repeated, List.zip_cons_cons, List.flatMap_cons, List.map_append, List.sum_append,
        List.map_replicate, List.sum_replicate_nat, List.map_cons, List.zipWith_cons_cons,
        List.sum_cons, ← ih values]
      rfl

theorem sum_zipWith_le {counts first second : List Nat} (h : List.Forall₂ (· ≤ ·) first second) :
    (List.zipWith (· * ·) counts first).sum ≤ (List.zipWith (· * ·) counts second).sum := by
  induction h generalizing counts with
  | nil => rfl
  | cons hHead _ ih =>
    cases counts with
    | nil => rfl
    | cons count counts =>
      rw [List.zipWith_cons_cons, List.zipWith_cons_cons, List.sum_cons, List.sum_cons]
      exact Nat.add_le_add (Nat.mul_le_mul_left count hHead) ih

/-- The markup of a filled template has the sized pipes of the math that was put in. -/
theorem hasAtMost_localize_fill {side : Side} {inners : List Text}
    (hInners : ∀ inner ∈ inners, (inner = [] ∨ IsInner inner) ∧ EndsBlunt inner)
    (mode : Substitution) {template : Text} (hTemplate : '\\' ∉ template) :
    HasAtMost side (List.zipWith (· * ·)
      (copies mode 1 (inners.map (Markup.wrap .inline)) template)
      (inners.map (sizedPipes side))).sum
      (localize (fill mode (inners.map (Markup.wrap .inline)) template)) := by
  have hSpan : ∀ inner ∈ inners, IsSpan (Markup.wrap .inline inner) := by
    intro inner hMem
    rcases (hInners inner hMem).1 with rfl | hInner
    · exact isSpan_wrap rfl
    · exact hInner.isSpan
  have hNone : IsQuiet [] := by decide
  have hOpening : IsQuiet "\\text\x7b".toList := by decide
  have hClosing : IsQuiet ['\x7d'] := by decide
  have hText : ∀ {run : Text}, '\\' ∉ run → IsQuiet ("\\text".toList ++ braced run) := fun hRun =>
    hOpening.append ((IsQuiet.of_not_mem hRun).append hClosing)
  obtain ⟨others, hLaid, hPerm⟩ := Laid.fill hSpan mode hTemplate
  have hOthers : ∀ inner ∈ others, inner ≠ [] →
      IsInner inner ∧ HasAtMost side (sizedPipes side inner) inner := by
    intro inner hMem hNe
    obtain ⟨hBack, hBlunt⟩ := hInners inner (Laid.mem_of_mem_repeated (hPerm.mem_iff.mp hMem))
    exact ⟨hBack.resolve_left hNe, hBlunt, Nat.le_refl _⟩
  rw [← sum_repeated, ← (hPerm.map _).sum_nat]
  refine Laid.localize (hNone.hasAtMost side 0) HasAtMost.append
    (fun hRun => (hText hRun).hasAtMost side 0) (fun {run} hRun => ?_) hOthers hLaid
  have hFront : IsQuiet "\\\\text\x7b(\x7d\\\\text\x7b".toList := by decide
  have hRest : '\\' ∉ ')' :: run ++ ['\x7d'] := by simp [hRun]
  exact (hFront.append (.of_not_mem hRest)).hasAtMost side _

/-- A node that takes no backslash from literals. Where it is dumped it writes no `\r`, and where
it is a template each of its arguments, put in or not, is empty or on one line without `\)` and
`ARG`. -/
structure IsPiped (settings : Settings) (node : Node) : Prop where
  plain : ∀ below ∈ node.visits, ∀ text, below.text? = some text → '\\' ∉ text
  dumped : node.tag? = none → ∀ below ∈ node.visits, below.IsReturnFree
  back : node.tag? = some .template → ∀ arg ∈ node.visited, ∀ inner,
    (fragment settings arg).outcome = .ok (Markup.wrap .inline inner) → inner = [] ∨ IsInner inner

theorem IsPiped.reads {settings : Settings} {node : Node} (h : IsPiped settings node) {text : Text}
    (hText : text ∈ node.reads) : '\\' ∉ text := by
  obtain ⟨owner, hOwner, hOwn⟩ := Node.exists_of_mem_reads (.self node) hText
  exact h.plain owner hOwner text hOwn

/-- Counts are added up by their places. -/
theorem sum_map_getD_range {counts : List Nat} {bound : Nat} (h : counts.length ≤ bound) :
    ((List.range bound).map fun index => counts[index]?.getD 0).sum = counts.sum := by
  induction counts generalizing bound with
  | nil => simp
  | cons count rest ih =>
    obtain ⟨more, rfl⟩ : ∃ more, bound = more + 1 :=
      Nat.exists_eq_add_one_of_ne_zero (Nat.ne_zero_of_lt h)
    rw [List.range_succ_eq_map, List.map_cons, List.map_map, List.sum_cons, List.sum_cons,
      ← ih (Nat.le_of_succ_le_succ h)]
    rfl

/-- Every layout passes on the sized pipes of its operands, and a template those of its
fragments. -/
theorem pipeRule {settings : Settings} (hPipes : settings.pipeSizing = .firstPair) (side : Side) :
    MarkupRule settings (IsPiped settings)
      fun node raw => HasAtMost side (node.insertions settings) raw where
  value hFine _ _ hText :=
    IsQuiet.hasAtMost (carried_quiet.write _ fun c hc => by
      rw [List.mem_singleton.mp hc]
      exact hFine.reads hText) side _
  repeating hFine _ hDecimal hMarkup :=
    IsQuiet.hasAtMost (carried_quiet.format hMarkup fun c hc => by
      rw [List.mem_singleton.mp hc]
      exact hFine.reads hDecimal) side _
  fixed {node tag pieces markups} _ hTag hLayout hMarkups := by
    have hNone : node.tag? ≠ some .template := by
      rintro hTemplate
      cases hTag.symm.trans hTemplate
      cases hLayout
    have hVisited : node.visited = node.children.take tag.arity := by
      rw [Node.visited, hTag]
      exact (Tag.visited_eq tag node).trans (by rw [hLayout])
    have hLength : (node.visited.map (Node.insertions settings)).length ≤ tag.arity := by
      rw [List.length_map, hVisited, List.length_take]
      exact Nat.min_le_left ..
    have hOperands : ∀ (index : Nat) (operand : Node × Text),
        (node.visited.zip markups)[index]? = some operand →
          HasAtMost side ((node.visited.map (Node.insertions settings))[index]?.getD 0)
            operand.2 := by
      rintro index ⟨below, markup⟩ hOperand
      have hBelow := (List.getElem?_zip_eq_some.mp hOperand).1
      rw [List.getElem?_map, hBelow]
      exact (List.forall₂_iff_zip.mp hMarkups).2 (List.mem_of_getElem? hOperand)
    have hWords := Layout.isQuiet_words tag
    rw [hLayout] at hWords
    have hFill := hasAtMost_fillPieces hOperands hWords
    rw [((Layout.perm_indices hLayout).map _).sum_nat, sum_map_getD_range hLength] at hFill
    rwa [Node.insertions_of_ne hNone]
  series {node tag opening separator closing markups} _ hTag hLayout hMarkups := by
    have hNone : node.tag? ≠ some .template := by
      rintro hTemplate
      cases hTag.symm.trans hTemplate
      cases hLayout
    have hWords := Layout.isQuiet_words tag
    rw [hLayout] at hWords
    obtain ⟨hOpening, hSeparator, hClosing⟩ : IsQuiet opening ∧ IsQuiet separator ∧
        IsQuiet closing := by simpa [Layout.words] using hWords
    rw [Node.insertions_of_ne hNone]
    exact (hasAtMost_intercalate hSeparator (List.forall₂_map_left_iff.mpr hMarkups)).between
      hOpening hClosing
  template {node text raws} hFine hTag hText hRaws := by
    have hTemplate : (node.children[2]?).bind Node.text? = some text := by
      rw [Node.reads, hTag] at hText
      exact Option.mem_toList.mp hText
    have hInners : ∀ inner ∈ raws.map (Markup.finish settings),
        (inner = [] ∨ IsInner inner) ∧ EndsBlunt inner := by
      refine List.forall_mem_map.mpr (forall_mem_of_forall₂ hRaws fun arg hArg raw hRaw => ?_)
      exact ⟨hFine.back hTag arg hArg _ (fragment_of_render hRaw.2), hRaw.1.blunt.finish settings⟩
    have hFragments :
        node.visited.map (fun arg => (fragment settings arg).outcome.toOption.getD []) =
        (raws.map (Markup.finish settings)).map (Markup.wrap .inline) := by
      rw [List.map_map, ← List.forall₂_eq_eq_eq, List.forall₂_map_left_iff,
        List.forall₂_map_right_iff]
      refine hRaws.imp fun arg raw hRaw => ?_
      rw [fragment_of_render hRaw.2]
      rfl
    have hCounts : List.Forall₂ (· ≤ ·)
        ((raws.map (Markup.finish settings)).map (sizedPipes side))
        (node.visited.map fun arg => arg.insertions settings + 1) := by
      rw [List.map_map, List.forall₂_map_left_iff, List.forall₂_map_right_iff]
      refine hRaws.flip.imp fun raw arg hRaw => ?_
      exact Nat.le_trans (sizedPipes_finish hPipes side raw) (Nat.succ_le_succ hRaw.1.pipes)
    have hFill := @hasAtMost_localize_fill side _ hInners settings.substitution text
      (hFine.reads hText)
    rw [Node.insertions_of_template hTag, Node.argCopies, hFragments, hTemplate, Option.getD_some]
    have hMost := hFill.mono (sum_zipWith_le hCounts)
    rwa [List.map_map] at hMost ⊢
  dump {node} hFine hTag :=
    IsQuiet.hasAtMost (isQuiet_dump hFine.plain (hFine.dumped hTag)) side _

/-- Where only the first pair of pipes is sized, a converted tree without backslashes in literals
has at most one sized pipe of each side, and one more for every fragment that is put into a
template. Every argument of a template has finished markup that is empty, or on one line without the
closing delimiter and `ARG`. -/
theorem sizedPipes_convert {settings : Settings} (hPipes : settings.pipeSizing = .firstPair)
    {node : Node} {out : Text}
    (hPlain : ∀ below ∈ node.visits, ∀ text, below.text? = some text → '\\' ∉ text)
    (hDumped : ∀ below, node.Reaches below → below.tag? = none →
      ∀ inside ∈ below.visits, inside.IsReturnFree)
    (hBack : ∀ below, node.Reaches below → below.tag? = some .template →
      ∀ arg ∈ below.visited, ∀ inner,
        (fragment settings arg).outcome = .ok (Markup.wrap .inline inner) →
          inner = [] ∨ IsInner inner)
    (hOut : (convert settings node).outcome = .ok out) (side : Side) :
    sizedPipes side out ≤ 1 + node.insertions settings ∧
      ((∀ below, node.Reaches below → below.tag? ≠ some .template) → sizedPipes side out ≤ 1) := by
  have hPiped : ∀ below, node.Reaches below → IsPiped settings below := fun below hReach =>
    ⟨fun inside hInside =>
        hPlain inside (Node.mem_visits_trans (Node.mem_visits_of_reaches hReach) hInside),
      hDumped below hReach, hBack below hReach⟩
  obtain ⟨raw, hRaw, hWrap⟩ := Run.exists_of_outcome_bind_ok hOut
  cases hWrap
  have hMarkup := (pipeRule hPipes side).holds (Nat.le_refl _) hPiped hRaw
  have hFinish := Nat.le_trans (sizedPipes_finish hPipes side raw) (Nat.succ_le_succ hMarkup.pipes)
  have hInner : HasAtMost side (node.insertions settings + 1) (Markup.finish settings raw) :=
    ⟨hMarkup.blunt.finish settings, hFinish⟩
  have hWhole : sizedPipes side (Markup.wrap settings.mathStyle (Markup.finish settings raw)) ≤
      1 + node.insertions settings := by
    rw [Nat.add_comm]
    cases settings.mathStyle with
    | inline =>
      have hOpening : IsQuiet "\\(".toList := by decide
      exact (hInner.between hOpening (by decide)).pipes
    | display =>
      have hOpening : IsQuiet "\\[".toList := by decide
      exact (hInner.between hOpening (by decide)).pipes
  refine ⟨hWhole, fun hNone => ?_⟩
  rwa [Node.insertions_eq_zero hNone] at hWhole

theorem insertions_templateAround {settings : Settings} {text : Text} {arg : Node}
    (hCopies : (templateAround text arg).argCopies settings = [1])
    (hArg : ∀ below ∈ arg.visits, below.tag? ≠ some .template) :
    (templateAround text arg).insertions settings = 1 := by
  have hTag : (templateAround text arg).tag? = some .template := by
    have hKind : Tag.ofName? "localized_text".toList = some .template := by decide +kernel
    exact hKind
  have hVisited : (templateAround text arg).visited = [arg] := by
    rw [Node.visited, hTag]
    rfl
  have hNone : arg.insertions settings = 0 := Node.insertions_eq_zero fun below hReach =>
    hArg below (Node.mem_visits_of_reaches hReach)
  rw [Node.insertions_of_template hTag, hVisited, hCopies, List.map_singleton, hNone]
  rfl

/-- The absolute value of a half. -/
def absoluteHalf : Node :=
  .ofChildren "abs".toList [.ofChildren "frac".toList [.leaf "const".toList (.text "1".toList),
    .leaf "const".toList (.text "2".toList)]]

/-- The absolute value of a half in parentheses. -/
def bracketedHalf : Node := .ofChildren "bracket".toList [absoluteHalf]

/-- A template with the absolute value of a half. -/
def templateHalf : Node := templateAround "ARG1".toList bracketedHalf

/-- A sum of absolute values, the second of them within a template. -/
def absoluteSum : Node :=
  .ofChildren "bracket".toList [.ofChildren "add".toList [absoluteHalf, templateHalf]]

/-- The markup of `bracketedHalf` with all delimiters sized. -/
def bracketedHalfMarkup : Text :=
  "\\left(\\left|\\frac\x7b1\x7d\x7b2\x7d\\right|\\right)".toList

/-- The markup of `absoluteSum`. -/
def absoluteSumMarkup : Text :=
  "\\(\\left(\\left|\\frac\x7b1\x7d\x7b2\x7d\\right|+".toList ++ bracketedHalfMarkup ++
    "\\right)\\)".toList

theorem sizedPipes_convert_absoluteSum :
    (∀ below ∈ absoluteSum.visits, ∀ text, below.text? = some text → '\\' ∉ text) ∧
    (∀ below, absoluteSum.Reaches below → below.tag? = none →
      ∀ inside ∈ below.visits, inside.IsReturnFree) ∧
    (∀ below, absoluteSum.Reaches below → below.tag? = some .template →
      ∀ arg ∈ below.visited, ∀ inner,
        (fragment { pipeSizing := .firstPair } arg).outcome = .ok (Markup.wrap .inline inner) →
          inner = [] ∨ IsInner inner) ∧
    (convert { pipeSizing := .firstPair } absoluteSum).outcome = .ok absoluteSumMarkup ∧
    absoluteSum.insertions { pipeSizing := .firstPair } = 1 ∧
    sizedPipes .left absoluteSumMarkup = 2 ∧ sizedPipes .left absoluteSumMarkup ≤ 1 + 1 := by
  have hVisits : ∀ below ∈ absoluteSum.visits,
      below.tag? ≠ none ∧ ∀ text ∈ below.text?, '\\' ∉ text := by decide +kernel
  have hPlain : ∀ below ∈ absoluteSum.visits, ∀ text, below.text? = some text → '\\' ∉ text :=
    fun below hBelow text hText => (hVisits below hBelow).2 text hText
  have hDumped : ∀ below, absoluteSum.Reaches below → below.tag? = none →
      ∀ inside ∈ below.visits, inside.IsReturnFree := fun below hReach hTag =>
    absurd hTag (hVisits below (Node.mem_visits_of_reaches hReach)).1
  have hFragments : ∀ below ∈ absoluteSum.visits, below.tag? = some .template →
      ∀ arg ∈ below.visited, (fragment { pipeSizing := .firstPair } arg).outcome =
        .ok (Markup.wrap .inline bracketedHalfMarkup) := by decide +kernel
  have hBack : ∀ below, absoluteSum.Reaches below → below.tag? = some .template →
      ∀ arg ∈ below.visited, ∀ inner,
        (fragment { pipeSizing := .firstPair } arg).outcome = .ok (Markup.wrap .inline inner) →
          inner = [] ∨ IsInner inner := by
    intro below hReach hTag arg hArg inner hFragment
    have hMarkup := hFragments below (Node.mem_visits_of_reaches hReach) hTag arg hArg
    have hSame := Except.ok.inj (hFragment.symm.trans hMarkup)
    rw [wrap_inline, wrap_inline] at hSame
    have hInner : inner = bracketedHalfMarkup :=
      List.append_cancel_left (List.append_cancel_right hSame)
    rw [hInner]
    exact .inr ⟨by decide, by decide, by decide, by decide⟩
  have hOut : (convert { pipeSizing := .firstPair } absoluteSum).outcome =
      .ok absoluteSumMarkup := by decide +kernel
  have hOne : templateHalf.insertions { pipeSizing := .firstPair } = 1 :=
    insertions_templateAround (by decide +kernel) (by decide +kernel)
  have hNone : absoluteHalf.insertions { pipeSizing := .firstPair } = 0 := by
    have hBelow : ∀ below ∈ absoluteHalf.visits, below.tag? ≠ some .template := by decide +kernel
    exact Node.insertions_eq_zero fun below hReach =>
      hBelow below (Node.mem_visits_of_reaches hReach)
  have hInsertions : absoluteSum.insertions { pipeSizing := .firstPair } = 1 := by
    have hVisited : absoluteSum.visited =
        [.ofChildren "add".toList [absoluteHalf, templateHalf]] := rfl
    have hOperands : (Node.ofChildren "add".toList [absoluteHalf, templateHalf]).visited =
        [absoluteHalf, templateHalf] := rfl
    rw [Node.insertions_of_ne (by decide +kernel), hVisited, List.map_singleton,
      List.sum_singleton, Node.insertions_of_ne (by decide +kernel), hOperands, List.map_cons,
      List.map_singleton, hNone, hOne]
    rfl
  have hMost := (sizedPipes_convert rfl hPlain hDumped hBack hOut .left).1
  rw [hInsertions] at hMost
  exact ⟨hPlain, hDumped, hBack, hOut, hInsertions, by decide, hMost⟩

/-- A template with two fragments. -/
def halvesTemplate : Node where
  kind := "localized_text".toList
  children := [.leaf "string".toList (.text "k".toList), .leaf "string".toList (.text "ru".toList),
    .leaf "string".toList (.text "ARG1 ARG2".toList)]
  args := [bracketedHalf, bracketedHalf]

/-- A leaf of a kind without a layout, whose text has carriage returns. -/
def returnLeaf : Node := .leaf "k".toList (.text "\right|\right|".toList)

/-- A column of names. -/
def nameColumn (names : List String) : Node :=
  .ofChildren "vert_list".toList (names.map fun name => .leaf "var".toList (.text name.toList))

/-- A template around a column in which names begin with parentheses. -/
def cutPipes : Node :=
  templateAround "ARG1".toList (nameColumn ["x", ")z", "(left|", ")z", "(left|", ")z", "(left|"])

/-- Two fragments have a pair of sized pipes each, so a tree without backslashes in literals may
have two of each side. More come up where the dump of a tree escapes carriage returns before
`ight|`, and where row breaks are cut within a fragment; where a row break stands before the letters
of a command none does. -/
theorem exists_two_sizedPipes :
    (∀ node ∈ [halvesTemplate, returnLeaf, cutPipes], ∀ below ∈ node.visits,
      ∀ text ∈ below.text?, '\\' ∉ text) ∧
    (∃ out, (convert { pipeSizing := .firstPair } halvesTemplate).outcome = .ok out ∧
      out = "\\(".toList ++ bracketedHalfMarkup ++ "\\text\x7b \x7d".toList ++
        bracketedHalfMarkup ++ "\\)".toList ∧
      sizedPipes .left out = 2 ∧ sizedPipes .right out = 2) ∧
    (∃ out, (convert { pipeSizing := .firstPair } returnLeaf).outcome = .ok out ∧
      out = "\\(\x7b\"type\":\"k\",\"value\":\"\\right|\\right|\"\x7d\\)".toList ∧
      sizedPipes .right out = 2) ∧
    (∃ out, (convert { pipeSizing := .firstPair } cutPipes).outcome = .ok out ∧
      cutPipes.insertions { pipeSizing := .firstPair } = 1 ∧ sizedPipes .left out = 3) ∧
    ∃ out, (convert { pipeSizing := .firstPair } (nameColumn ["x", "left|", "left|"])).outcome =
        .ok out ∧
      out = "\\(\\begin\x7barray\x7d\x7bl\x7dx\\\\left|\\\\left|\\end\x7barray\x7d\\)".toList ∧
      sizedPipes .left out = 0 := by
  have hInsertions : cutPipes.insertions { pipeSizing := .firstPair } = 1 :=
    insertions_templateAround (by decide +kernel) (by decide +kernel)
  have hCut : (convert { pipeSizing := .firstPair } cutPipes).outcome =
      .ok ("\\(\\begin\x7barray\x7d\x7bl\x7dx\\\\text\x7bz\x7d\\left|".toList ++
        "\\\\text\x7bz\x7d\\left|\\\\text\x7bz\x7d\\left|\\end\x7barray\x7d\\)".toList) := by
    decide +kernel
  refine ⟨by decide +kernel, ⟨_, by decide +kernel, rfl, by decide, by decide⟩,
    ⟨_, by decide +kernel, rfl, by decide⟩, ⟨_, hCut, hInsertions, by decide⟩,
    ⟨_, by decide +kernel, rfl, by decide⟩⟩

end Formulary
