import Formulary.Proofs.Text.Open
import Formulary.Proofs.Tree.Node
import Formulary.Tree.Shape

/-!
# The dump of a tree inside other math

The dump of a tree escapes what a string cannot hold, so it breaks no line (`newline_not_mem_dump`).
Every escape goes on behind its backslash with a character of its own. Where kinds and values hold
no backslash, the dump therefore ends no inline math (`keepsOpen_dump`).
-/

namespace Formulary

open Text

/-! ## Strings -/

theorem digits_of_control {c : Char} (hc : c.val < 0x20) :
    '\\' ∉ Nat.toDigits 16 c.toNat ∧ '\n' ∉ Nat.toDigits 16 c.toNat := by
  have hAll : ∀ n < 32, '\\' ∉ Nat.toDigits 16 n ∧ '\n' ∉ Nat.toDigits 16 n := by
    decide +kernel
  exact hAll _ hc

theorem passes_controlEscape {c : Char} (hc : c.val < 0x20) :
    Passes (Json.controlEscape c) false false := by
  have hDigits := (digits_of_control hc).1
  have hOpening : Passes "\\u".toList false false := by decide
  rw [Json.controlEscape, List.append_assoc]
  refine hOpening.append (.of_not_mem ?_ (.inl rfl))
  simp [hDigits]

theorem passes_escapeChar {c : Char} (hc : c ≠ '\\') : Passes (Json.escapeChar c) false false := by
  unfold Json.escapeChar
  split
  · decide
  · exact absurd rfl hc
  · decide
  · decide
  · decide
  · decide
  · decide
  · split
    · exact passes_controlEscape ‹_›
    · exact .of_not_mem (by simpa using Ne.symm hc) (.inl rfl)

theorem newline_not_mem_escapeChar (c : Char) : '\n' ∉ Json.escapeChar c := by
  unfold Json.escapeChar
  split
  · decide
  · decide
  · decide
  · decide
  · decide
  · decide
  · decide
  · rename_i hLine _ _
    split
    · rename_i hControl
      have hDigits := (digits_of_control hControl).2
      simp [Json.controlEscape, hDigits]
    · simpa using Ne.symm hLine

theorem passes_printString {text : Text} (hText : '\\' ∉ text) (slash : Bool) :
    Passes (Json.printString text) slash false := by
  have hBody : Passes (text.flatMap Json.escapeChar) false false := by
    induction text with
    | nil => exact .nil false
    | cons c rest ih =>
      obtain ⟨hc, hRest⟩ := not_or.mp (mt List.mem_cons.mpr hText)
      exact (passes_escapeChar (Ne.symm hc)).append (ih hRest)
  have hQuote : ∀ slash, Passes ['"'] slash false := by decide
  exact ((hQuote slash).append hBody).append (hQuote false)

theorem newline_not_mem_printString (text : Text) : '\n' ∉ Json.printString text := by
  intro h
  rcases List.mem_append.mp h with hFront | hQuote
  · rcases List.mem_cons.mp hFront with hQuote | hBody
    · cases hQuote
    · obtain ⟨c, -, hc⟩ := List.mem_flatMap.mp hBody
      exact newline_not_mem_escapeChar c hc
  · revert hQuote
    decide

namespace Node

/-! ## Trees -/

/-- The words that a dump puts between kinds and values. -/
def dumpWords : List Text :=
  [['\x7b'], "\"type\":".toList, ",\"value\":".toList, ",\"children\":".toList,
    ",\"args\":".toList, ['['], [','], [']'], ['\x7d']]

/-- What the parts of a dump pass on from the text that follows. -/
structure DumpRule (fine : Node → Prop) (P : Text → Prop) : Prop where
  word (word : Text) {after : Text} (hWord : word ∈ dumpWords) (h : P after) : P (word ++ after)
  kind {node : Node} {after : Text} (hFine : fine node) (h : P after) :
    P (Json.printString node.kind ++ after)
  value {node : Node} {literal : Literal} {after : Text} (hFine : fine node)
    (hValue : node.value = some literal) (h : P after) : P (literal.dump ++ after)

theorem dumpBefore_eq (node : Node) (after : Text) :
    node.dumpBefore after =
      '\x7b' :: ("\"type\":".toList ++ (Json.printString node.kind ++
        valueBefore node.value
          (listBefore ",\"children\":".toList node.children
            (listBefore ",\"args\":".toList node.args ('\x7d' :: after))))) := by
  obtain ⟨kind, value, children, args⟩ := node
  rw [dumpBefore]

namespace DumpRule

variable {fine : Node → Prop} {P : Text → Prop}

theorem itemsBefore (rule : DumpRule fine P) {nodes : List Node}
    (hNodes : ∀ node ∈ nodes, ∀ {after : Text}, P after → P (node.dumpBefore after))
    {after : Text} (h : P after) : P (itemsBefore nodes after) := by
  induction nodes with
  | nil => exact h
  | cons node rest ih =>
    have hRest := ih fun other hOther => hNodes other (List.mem_cons_of_mem _ hOther)
    exact rule.word [','] (by decide) (hNodes node List.mem_cons_self hRest)

theorem listBefore (rule : DumpRule fine P) (member : Text) (hMember : member ∈ dumpWords)
    {nodes : List Node}
    (hNodes : ∀ node ∈ nodes, ∀ {after : Text}, P after → P (node.dumpBefore after))
    {after : Text} (h : P after) : P (listBefore member nodes after) := by
  cases nodes with
  | nil => exact h
  | cons node rest =>
    have hItems := rule.itemsBefore
      (fun other hOther => hNodes other (List.mem_cons_of_mem _ hOther))
      (rule.word [']'] (by decide) h)
    rw [Node.listBefore]
    exact rule.word member hMember
      (rule.word ['['] (by decide) (hNodes node List.mem_cons_self hItems))

theorem valueBefore (rule : DumpRule fine P) {node : Node} (hFine : fine node) {after : Text}
    (h : P after) : P (valueBefore node.value after) := by
  cases hValue : node.value with
  | none => exact h
  | some literal =>
    exact rule.word ",\"value\":".toList (by decide) (rule.value hFine hValue h)

/-- What the parts of a dump pass on, the dump of a tree passes on. -/
theorem dumpBefore (rule : DumpRule fine P) {node : Node}
    (hFine : ∀ below ∈ node.visits, fine below) {after : Text} (h : P after) :
    P (node.dumpBefore after) := by
  induction node using Node.induction generalizing after with
  | h node hChildren hArgs =>
    have hHere : fine node := hFine node node.mem_visits_self
    have hArgList := rule.listBefore ",\"args\":".toList (by decide)
      (fun arg hArg _ hAfter => hArgs arg hArg (fun below hBelow =>
        hFine below (mem_visits.mpr (.inr ⟨arg, .inr hArg, hBelow⟩))) hAfter)
      (rule.word ['\x7d'] (by decide) h)
    have hChildList := rule.listBefore ",\"children\":".toList (by decide)
      (fun child hChild _ hAfter => hChildren child hChild (fun below hBelow =>
        hFine below (mem_visits.mpr (.inr ⟨child, .inl hChild, hBelow⟩))) hAfter)
      hArgList
    have hKind := rule.kind hHere (rule.valueBefore hHere hChildList)
    rw [dumpBefore_eq]
    exact rule.word ['\x7b'] (by decide)
      (rule.word "\"type\":".toList (by decide) hKind)

end DumpRule

/-- Kinds and values hold no backslash. -/
structure IsPlain (node : Node) : Prop where
  kind : '\\' ∉ node.kind
  value : ∀ text, node.text? = some text → '\\' ∉ text

theorem passesRule : DumpRule IsPlain fun after => Passes after false false where
  word word _ hWord h := by
    have hAll : ∀ word ∈ dumpWords, Passes word false false := by decide
    exact (hAll _ hWord).append h
  kind hFine h := (passes_printString hFine.kind false).append h
  value {node literal after} hFine hValue h := by
    have hText : '\\' ∉ literal.asText := by
      refine hFine.value _ ?_
      rw [text?, hValue]
      rfl
    have hDump : Passes literal.dump false false := by
      cases literal with
      | text content => exact passes_printString hText false
      | number content => exact .of_not_mem hText (.inl rfl)
    exact hDump.append h

/-- The dump of a tree without backslashes ends no math. -/
theorem keepsOpen_dump {node : Node} (hPlain : ∀ below ∈ node.visits, below.IsPlain) :
    KeepsOpen node.dump := by
  have hDump : Passes node.dump false false := passesRule.dumpBefore hPlain (.nil false)
  intro slash
  rw [dump, dumpBefore_eq] at hDump ⊢
  rcases hDump with hRead | hRead
  · left
    rw [slashThrough_cons (.inr (by decide))]
    exact hRead
  · left
    rw [slashThrough_cons (.inr (by decide))]
    exact hRead

theorem lineRule : DumpRule (fun node => ∀ text, node.text? = some text → '\n' ∉ text)
    fun after => '\n' ∉ after where
  word word _ hWord h := by
    have hAll : ∀ word ∈ dumpWords, '\n' ∉ word := by decide
    exact fun hMem => (List.mem_append.mp hMem).elim (hAll _ hWord) h
  kind _ h := fun hMem => (List.mem_append.mp hMem).elim (newline_not_mem_printString _) h
  value {node literal after} hFine hValue h := by
    have hDump : '\n' ∉ literal.dump := by
      cases literal with
      | text content => exact newline_not_mem_printString content
      | number content =>
        refine hFine _ ?_
        rw [text?, hValue]
        rfl
    exact fun hMem => (List.mem_append.mp hMem).elim hDump h

/-- The dump of a tree is on one line. -/
theorem newline_not_mem_dump {node : Node}
    (hFine : ∀ below ∈ node.visits, ∀ text, below.text? = some text → '\n' ∉ text) :
    '\n' ∉ node.dump :=
  lineRule.dumpBefore hFine List.not_mem_nil

end Node

end Formulary
