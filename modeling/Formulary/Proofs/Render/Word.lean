import Formulary.Proofs.Markup.Word
import Formulary.Proofs.Render.Carried
import Formulary.Proofs.Render.Fragment

/-!
# The control words of rendered trees

Layouts write a space or a brace behind every command, with one exception: `\pm` before its only
operand. So for trees without backslashes in literals a control word of the markup is one of a
layout, or one that a stage has put into the argument of a template, or the `\pm` of such a sign
with the letters behind it (`controlWords_render`). The letters do join its name
(`exists_joined_plusMinus`).

The arguments of templates must be read back from the filled text as they were put in. What is asked
of each argument for this is that its finished markup is empty, or stands on one line and holds
neither the closing delimiter `\)` nor the letters `ARG` (`IsInner`). It is asked of every argument
that a visited template has, also of one that is not put into the text, and of one that holds the
letters `ARG` where no later argument captures them. Where the closing delimiter is found within an
argument, namely in a row break before a literal that begins with a parenthesis, half of the row
break is left before what follows and may begin a new command.
-/

namespace Formulary

open Text Placeholder

/-! ## Known words -/

/-- The commands that layouts and the markup of prose write. -/
def layoutCommands : List Text := [
  "text".toList, "cdot".toList, "pm".toList, "frac".toList, "sqrt".toList, "log".toList,
  "ln".toList, "neq".toList, "approx".toList, "geq".toList, "leq".toList, "begin".toList,
  "end".toList, "circ".toList, "operatorname".toList, "sin".toList, "cos".toList,
  "arcsin".toList, "arccos".toList, "sec".toList, "csc".toList, "in".toList, "notin".toList,
  "cup".toList, "backslash".toList, "partial".toList, "lim".toList, "limits".toList,
  "to".toList, "sum".toList, "int".toList, "Bigg".toList, "fbox".toList]

/-- A control word of a layout, of a stage in a filled template, or of a sign that letters join. -/
def IsKnown (filled joined : Prop) (word : Text) : Prop :=
  word ∈ layoutCommands ∨ filled ∧ word ∈ stageCommands ∨ joined ∧ "pm".toList <+: word

/-- Letters that follow make no word that is not known. -/
def Lead.IsFree (joined : Prop) : Lead → Prop
  | .plain => True
  | .slash => False
  | .word name => joined ∧ "pm".toList <+: name

theorem isVocabulary_isKnown {filled : Prop} (joined : Prop) (hFilled : filled) :
    IsVocabulary (IsKnown filled joined) where
  stage h := .inr (.inl ⟨hFilled, h⟩)
  shrunk {letters} h := by
    have hLayout : ∀ word ∈ layoutCommands, ¬ "dfrac".toList <+: word := by decide
    have hStage : ∀ word ∈ stageCommands, "dfrac".toList <+: word → word = "dfrac".toList := by
      decide
    have hFront := List.prefix_append "dfrac".toList letters
    rcases h with hWord | ⟨-, hWord⟩ | ⟨-, hWord⟩
    · exact absurd hFront (hLayout _ hWord)
    · have hNone : "dfrac".toList ++ letters = "dfrac".toList ++ [] := hStage _ hWord hFront
      rw [List.append_cancel_left hNone]
      exact .inl (by decide)
    · obtain ⟨rest, hRest⟩ := hWord
      cases hRest

section

variable {filled joined : Prop} {lead other : Lead}

theorem known_of_isFree (h : lead.IsFree joined) (c : Char) :
    ∀ word ∈ Mark.ends ⟨lead, c⟩, IsKnown filled joined word := by
  intro word hWord
  obtain ⟨hLead, -⟩ := mem_ends.mp hWord
  cases hLead
  exact .inr (.inr h)

theorem keepsLetters_isFree (joined : Prop) : KeepsLetters (Lead.IsFree joined) where
  plain := trivial
  slash := id
  word c h := ⟨h.1, h.2.trans (List.prefix_append _ [c])⟩

/-- Whether the words of a text are known does not depend on the free lead that it starts behind. -/
theorem closedFrom_of_isFree (h : lead.IsFree joined) (hOther : other.IsFree joined) {text : Text}
    (hWords : ∀ word ∈ closedFrom lead text, IsKnown filled joined word) :
    ∀ word ∈ closedFrom other text, IsKnown filled joined word := by
  induction text generalizing lead other with
  | nil => exact nofun
  | cons c rest ih =>
    rw [closedFrom_cons, List.forall_mem_append] at hWords ⊢
    refine ⟨known_of_isFree hOther c, ?_⟩
    rcases (keepsLetters_isFree joined).after h hOther c with hSame | ⟨hNext, hNextOther⟩
    · rw [← hSame]
      exact hWords.2
    · exact ih hNext hNextOther hWords.2

end

/-! ## Intact markup -/

/-- A text ends where letters may follow. -/
def EndsFree (joined : Prop) (text : Text) : Prop := (Lead.plain.through text).IsFree joined

/-- The control words that end in a text are known, and letters may follow it. -/
structure IsIntact (filled joined : Prop) (text : Text) : Prop where
  closed : ∀ word ∈ closedFrom .plain text, IsKnown filled joined word
  free : EndsFree joined text

/-- A text ends neither in a control word nor in a backslash. -/
def EndsPlain (text : Text) : Prop := Lead.plain.through text = .plain

instance : DecidablePred EndsPlain :=
  fun text => inferInstanceAs (Decidable (Lead.plain.through text = .plain))

/-- The control words of a text are those of layouts, and each of them ends in it. -/
structure IsPlainMarkup (text : Text) : Prop where
  closed : ∀ word ∈ closedFrom .plain text, word ∈ layoutCommands
  plain : EndsPlain text

instance : DecidablePred IsPlainMarkup := fun text =>
  decidable_of_iff ((∀ word ∈ closedFrom .plain text, word ∈ layoutCommands) ∧ EndsPlain text)
    ⟨fun ⟨hClosed, hPlain⟩ => ⟨hClosed, hPlain⟩, fun h => ⟨h.closed, h.plain⟩⟩

section

variable {filled joined : Prop} {first second inner text : Text}

theorem EndsFree.of_plain (h : EndsPlain text) : EndsFree joined text := by
  rw [EndsFree, h]
  trivial

theorem IsIntact.of_plain (h : IsPlainMarkup text) : IsIntact filled joined text :=
  ⟨fun word hWord => .inl (h.closed word hWord), EndsFree.of_plain h.plain⟩

theorem closedFrom_of_not_mem (h : '\\' ∉ text) : closedFrom .plain text = [] := by
  rw [closedFrom, List.flatMap_eq_nil_iff]
  intro mark hMark
  obtain ⟨front, back, rfl, hLead⟩ := mem_marksFrom.mp hMark
  have hFront : '\\' ∉ front := fun hMem => h (List.mem_append_left _ hMem)
  rw [Mark.ends, hLead, through_of_not_mem hFront]

theorem isPlainMarkup_of_not_mem (h : '\\' ∉ text) : IsPlainMarkup text := by
  refine ⟨?_, through_of_not_mem h⟩
  rw [closedFrom_of_not_mem h]
  exact nofun

theorem EndsFree.append (hFirst : EndsFree joined first) (hSecond : EndsFree joined second) :
    EndsFree joined (first ++ second) :=
  (keepsLetters_isFree joined).append hFirst hSecond

/-- Intact markup may be put into intact markup where letters may follow. -/
theorem IsIntact.insert (hFirst : EndsFree joined first)
    (h : IsIntact filled joined (first ++ second)) (hInner : IsIntact filled joined inner) :
    IsIntact filled joined (first ++ inner ++ second) := by
  have hPlain : Lead.plain.IsFree joined := trivial
  have hFront : EndsFree joined (first ++ inner) := hFirst.append hInner.free
  obtain ⟨hClosed, hFree⟩ := h
  rw [closedFrom_append, List.forall_mem_append] at hClosed
  constructor
  · rw [closedFrom_append, closedFrom_append, List.forall_mem_append, List.forall_mem_append]
    exact ⟨⟨hClosed.1, closedFrom_of_isFree hPlain hFirst hInner.closed⟩,
      closedFrom_of_isFree hFirst hFront hClosed.2⟩
  · rw [EndsFree, through_append] at hFree ⊢
    rcases (keepsLetters_isFree joined).through hFirst hFront second with hSame | ⟨-, hBehind⟩
    · rw [← hSame]
      exact hFree
    · exact hBehind

theorem IsIntact.known (h : IsIntact filled joined text) :
    ∀ word ∈ controlWords text, IsKnown filled joined word := by
  refine List.forall_mem_append.mpr ⟨h.closed, fun word hWord => ?_⟩
  have hFree := h.free
  unfold EndsFree at hFree
  cases hLead : Lead.plain.through text with
  | plain => rw [hLead] at hWord; cases hWord
  | slash => rw [hLead] at hWord; cases hWord
  | word name =>
    rw [hLead] at hWord hFree
    rw [List.mem_singleton.mp hWord]
    exact .inr (.inr hFree)

/-- The stages keep markup intact in a filled template. -/
theorem IsIntact.finish (h : IsIntact filled joined text) (hFilled : filled)
    (settings : Settings) : IsIntact filled joined (Markup.finish settings text) := by
  obtain ⟨hWords, hThrough⟩ := words_finish (isVocabulary_isKnown joined hFilled) settings h.known
  refine ⟨(List.forall_mem_append.mp hWords).1, ?_⟩
  have hFree := h.free
  unfold EndsFree at hFree ⊢
  rcases hThrough with hSame | ⟨word, hWord, hFrac⟩
  · rw [hSame]
    exact hFree
  · rw [hWord] at hFree
    obtain ⟨rest, rfl⟩ := hFree.2
    rcases hFrac with ⟨tail, hTail⟩ | ⟨tail, hTail⟩ <;> cases hTail

end

/-! ## Layouts -/

theorem carried_intact (filled joined : Prop) :
    Carried ['\\'] (EndsFree joined) (IsIntact filled joined) where
  nil := .of_plain (by decide)
  cut h := h.free
  cutAppend hFirst hSecond := hFirst.append hSecond
  insert hFirst h hInner := .insert hFirst h hInner
  plain h := .of_plain (isPlainMarkup_of_not_mem (h '\\' List.mem_cons_self))
  indexed h := .of_plain
    (isPlainMarkup_of_not_mem (slash_not_mem_braceIndices (h '\\' List.mem_cons_self)))
  space := by decide
  comma := .of_plain (by decide)
  proseCut := .of_plain (by decide)
  prose := .of_plain (by decide)
  parenCut := .of_plain (by decide)
  parens := .of_plain (by decide)

/-- Every layout ends its commands before its operands, but for the sign `\pm`. -/
theorem Layout.carries_intact {filled joined : Prop} {tag : Tag}
    (h : tag = .plusMinus → joined) :
    (Layout.ofTag tag).Carries (EndsFree joined) (IsIntact filled joined) := by
  have hAll : ∀ tag ∈ Tag.all, tag ≠ .plusMinus →
      (Layout.ofTag tag).Carries EndsPlain IsPlainMarkup := by
    decide +kernel
  by_cases hSign : tag = .plusMinus
  · have hFree : EndsFree joined "\\pm".toList := ⟨h hSign, List.prefix_refl _⟩
    have hClosed : closedFrom .plain "\\pm".toList = [] := by decide
    have hIntact : IsIntact filled joined "\\pm".toList := by
      refine ⟨?_, hFree⟩
      rw [hClosed]
      exact nofun
    subst hSign
    refine ⟨hIntact, fun run hRun => ?_⟩
    rw [List.mem_singleton.mp hRun]
    exact hFree
  · exact (hAll tag tag.mem_all hSign).imp EndsFree.of_plain IsIntact.of_plain

/-- The markup of a template that is filled with intact math is intact. -/
theorem isIntact_localize_fill {filled joined : Prop} {inners : List Text}
    (hInners : ∀ inner ∈ inners, (inner = [] ∨ IsInner inner) ∧ IsIntact filled joined inner)
    (mode : Substitution) {template : Text} (hTemplate : '\\' ∉ template) :
    IsIntact filled joined
      (localize (fill mode (inners.map (Markup.wrap .inline)) template)) := by
  have hCarried := carried_intact filled joined
  have hSpan : ∀ inner ∈ inners, IsSpan (Markup.wrap .inline inner) := by
    intro inner hMem
    rcases (hInners inner hMem).1 with rfl | hInner
    · exact isSpan_wrap rfl
    · exact hInner.isSpan
  have hProse : ∀ {run : Text}, '\\' ∉ run → ∀ c ∈ ['\\'], c ∉ run := by
    intro run hRun c hc
    rw [List.mem_singleton.mp hc]
    exact hRun
  obtain ⟨others, hLaid, hPerm⟩ := Laid.fill hSpan mode hTemplate
  refine @Laid.localize (fun _ => IsIntact filled joined) (fun _ => 0) hCarried.nil hCarried.append
    (fun hRun => hCarried.write .words (hProse hRun)) (fun {run} hRun => ?_) others
    (fun inner hMem hNe => ?_) _ hLaid
  · -- Both backslashes of empty math escape what follows, so the names of commands are letters.
    have hFront : EndsFree joined "\\\\text\x7b(\x7d\\\\text\x7b".toList := .of_plain (by decide)
    have hEmpty : IsIntact filled joined
        ("\\\\text\x7b(\x7d\\\\text\x7b".toList ++ ['\x7d']) := .of_plain (by decide)
    have hClose := List.not_mem_cons_of_ne_of_not_mem (by decide : '\\' ≠ ')') hRun
    exact .insert hFront hEmpty (.of_plain (isPlainMarkup_of_not_mem hClose))
  · obtain ⟨hBack, hIntact⟩ := hInners inner (Laid.mem_of_mem_repeated (hPerm.mem_iff.mp hMem))
    exact ⟨hBack.resolve_left hNe, hIntact⟩

/-! ## Trees -/

/-- A node with a layout that takes no backslash from literals. Where it is a template, words of
stages are known, and each of its arguments, put in or not, is empty or on one line without `\)` and
`ARG`; where it is a sign `\pm`, letters may join. -/
structure IsWordFree (settings : Settings) (filled joined : Prop) (node : Node) : Prop where
  tagged : node.tag? ≠ none
  plain : ∀ text ∈ node.reads, '\\' ∉ text
  filled : node.tag? = some .template → filled
  joined : node.tag? = some .plusMinus → joined
  back : node.tag? = some .template → ∀ arg ∈ node.visited, ∀ inner,
    (fragment settings arg).outcome = .ok (Markup.wrap .inline inner) → inner = [] ∨ IsInner inner

/-- Every layout passes on that markup is intact. -/
theorem intactRule (settings : Settings) (filled joined : Prop) :
    MarkupRule settings (IsWordFree settings filled joined)
      fun _ raw => IsIntact filled joined raw := by
  refine (carried_intact filled joined).rule IsWordFree.tagged (fun hFree text hText c hc => ?_)
    (fun hFree hTag => Layout.carries_intact fun hSign => hFree.joined (hSign ▸ hTag))
    fun {node text raws} hFree hTag hText hRaws => ?_
  · rw [List.mem_singleton.mp hc]
    exact hFree.plain text hText
  · have hInners : ∀ inner ∈ raws.map (Markup.finish settings),
        (inner = [] ∨ IsInner inner) ∧ IsIntact filled joined inner := by
      refine List.forall_mem_map.mpr (forall_mem_of_forall₂ hRaws fun arg hArg raw hRaw => ?_)
      exact ⟨hFree.back hTag arg hArg _ (fragment_of_render hRaw.2),
        hRaw.1.finish (hFree.filled hTag) settings⟩
    have hIntact := isIntact_localize_fill hInners settings.substitution (hFree.plain text hText)
    rw [List.map_map] at hIntact
    exact hIntact

/-- The control words of a rendered tree are those of layouts, of stages if a template is rendered
in it, and the names that begin with `pm` if a sign `\pm` is. Every argument of a template has
finished markup that is empty, or on one line without the closing delimiter and `ARG`. -/
theorem controlWords_render {settings : Settings} {node : Node} {raw : Text}
    (hTagged : ∀ below, node.Reaches below → below.tag? ≠ none)
    (hPlain : ∀ below, node.Reaches below → ∀ text ∈ below.reads, '\\' ∉ text)
    (hBack : ∀ below, node.Reaches below → below.tag? = some .template →
      ∀ arg ∈ below.visited, ∀ inner,
        (fragment settings arg).outcome = .ok (Markup.wrap .inline inner) →
          inner = [] ∨ IsInner inner)
    (hRaw : (render settings node).outcome = .ok raw) :
    ∀ word ∈ controlWords raw, word ∈ layoutCommands ∨
      (∃ below, node.Reaches below ∧ below.tag? = some .template) ∧ word ∈ stageCommands ∨
      (∃ below, node.Reaches below ∧ below.tag? = some .plusMinus) ∧ "pm".toList <+: word := by
  have hFree : ∀ below, node.Reaches below → IsWordFree settings
      (∃ below, node.Reaches below ∧ below.tag? = some .template)
      (∃ below, node.Reaches below ∧ below.tag? = some .plusMinus) below :=
    fun below hReach => ⟨hTagged below hReach, hPlain below hReach,
      fun hTag => ⟨below, hReach, hTag⟩, fun hTag => ⟨below, hReach, hTag⟩, hBack below hReach⟩
  exact IsIntact.known ((intactRule settings _ _).holds (Nat.le_refl _) hFree hRaw)

/-- A sign before a number, a product with a glyph, and the sine of a fraction. -/
def signedColumn : Node :=
  .ofChildren "vert_list".toList [
    .ofChildren "add_sub_sign".toList [.leaf "const".toList (.text "2".toList)],
    .ofChildren "mul".toList [.leaf "const".toList (.text "2".toList),
      .leaf "var".toList (.text "π".toList)],
    .ofChildren "sin".toList [.ofChildren "frac".toList [.leaf "var".toList (.text "x".toList),
      .leaf "var".toList (.text "y".toList)]]]

/-- The markup of `signedColumn` with its glyph as a command. -/
def signedColumnMarkup : Text :=
  "\\begin\x7barray\x7d\x7bl\x7d\\pm2\\\\2\\cdot \\pi ".toList ++
    "\\\\\\sin \\frac\x7bx\x7d\x7by\x7d\\end\x7barray\x7d".toList

/-- A template around a tree. -/
def templateAround (text : Text) (arg : Node) : Node :=
  .ofChildren "localized_text".toList [.leaf "string".toList (.text []),
    .leaf "string".toList (.text []), .leaf "string".toList (.text text), arg]

/-- A template around `signedColumn`. -/
def nearColumn : Node := templateAround "near ARG1".toList signedColumn

theorem controlWords_render_nearColumn :
    (∀ below, nearColumn.Reaches below →
      below.tag? ≠ none ∧ ∀ text ∈ below.reads, '\\' ∉ text) ∧
    (∀ below, nearColumn.Reaches below → below.tag? = some .template →
      ∀ arg ∈ below.visited, ∀ inner,
        (fragment {} arg).outcome = .ok (Markup.wrap .inline inner) →
          inner = [] ∨ IsInner inner) ∧
    (render {} nearColumn).outcome =
      .ok ("\\text\x7bnear \x7d".toList ++ signedColumnMarkup) ∧
    ∀ word ∈ controlWords ("\\text\x7bnear \x7d".toList ++ signedColumnMarkup),
      word ∈ layoutCommands ∨
      (∃ below, nearColumn.Reaches below ∧ below.tag? = some .template) ∧ word ∈ stageCommands ∨
      (∃ below, nearColumn.Reaches below ∧ below.tag? = some .plusMinus) ∧
        "pm".toList <+: word := by
  have hVisits : ∀ below ∈ nearColumn.visits,
      below.tag? ≠ none ∧ ∀ text ∈ below.reads, '\\' ∉ text := by decide +kernel
  have hPlain : ∀ below, nearColumn.Reaches below →
      below.tag? ≠ none ∧ ∀ text ∈ below.reads, '\\' ∉ text :=
    fun below hReach => hVisits below (Node.mem_visits_of_reaches hReach)
  have hBelow : ∀ below ∈ signedColumn.visits, below.tag? ≠ some .template := by decide +kernel
  have hBack : ∀ below, nearColumn.Reaches below → below.tag? = some .template →
      ∀ arg ∈ below.visited, ∀ inner,
        (fragment {} arg).outcome = .ok (Markup.wrap .inline inner) →
          inner = [] ∨ IsInner inner := by
    intro below hReach hTag arg hArg inner hFragment
    have hVisited : nearColumn.visited = [signedColumn] := rfl
    cases hReach with
    | down hChild hReach =>
      rw [hVisited] at hChild
      obtain rfl := List.mem_singleton.mp hChild
      exact absurd hTag (hBelow below (Node.mem_visits_of_reaches hReach))
    | self =>
      rw [hVisited] at hArg
      obtain rfl := List.mem_singleton.mp hArg
      have hMarkup : (fragment {} signedColumn).outcome =
          .ok (Markup.wrap .inline signedColumnMarkup) := by decide +kernel
      have hSame := Except.ok.inj (hFragment.symm.trans hMarkup)
      rw [wrap_inline, wrap_inline] at hSame
      have hInner : inner = signedColumnMarkup :=
        List.append_cancel_left (List.append_cancel_right hSame)
      rw [hInner]
      exact .inr ⟨by decide, by decide, by decide, by decide⟩
  have hRaw : (render {} nearColumn).outcome =
      .ok ("\\text\x7bnear \x7d".toList ++ signedColumnMarkup) := by decide +kernel
  exact ⟨hPlain, hBack, hRaw, controlWords_render (fun below hReach => (hPlain below hReach).1)
    (fun below hReach => (hPlain below hReach).2) hBack hRaw⟩

/-- A sign before a name. -/
def signedName : Node :=
  .ofChildren "add_sub_sign".toList [.leaf "var".toList (.text "x".toList)]

/-- A template around a column in which names begin with parentheses. -/
def cutColumn : Node :=
  templateAround "ARG1".toList (.ofChildren "vert_list".toList
    [.leaf "var".toList (.text "x".toList), .leaf "var".toList (.text ")z".toList),
      .leaf "var".toList (.text "(a".toList)])

/-- The name joins the command of its sign, and a row break that is cut out of a template begins a
command: neither word is one of a layout or a stage. -/
theorem exists_joined_plusMinus :
    (∀ node ∈ [signedName, cutColumn], ∀ below ∈ node.visits,
      below.tag? ≠ none ∧ ∀ text ∈ below.text?, '\\' ∉ text) ∧
    (∃ raw, (render {} signedName).outcome = .ok raw ∧ "pmx".toList ∈ controlWords raw) ∧
    (∃ raw, (render {} cutColumn).outcome = .ok raw ∧ "a".toList ∈ controlWords raw) ∧
    ∀ word ∈ ["pmx".toList, "a".toList], word ∉ layoutCommands ∧ word ∉ stageCommands := by
  refine ⟨by decide +kernel, ⟨"\\pmx".toList, by decide +kernel, by decide⟩, ?_, by decide⟩
  refine ⟨"\\begin\x7barray\x7d\x7bl\x7dx\\\\text\x7bz\x7d\\a\\end\x7barray\x7d".toList, ?_, ?_⟩
  · decide +kernel
  · decide

end Formulary
