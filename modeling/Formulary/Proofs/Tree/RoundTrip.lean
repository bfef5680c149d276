import Formulary.Proofs.Json.Takes
import Formulary.Proofs.Render.Reach
import Formulary.Proofs.Tree.Dump
import Formulary.Tree.Decode

/-!
# Reading the dump of a tree

A dump leaves out what is empty, and a record that is read has these fields empty before. So the
dump of a tree is read back as the tree itself: with the texts of all kinds and values, with numbers
that are integers of 64 bits, and as long as the tree is not too high for the room of the reader.

* `takes_readLiteral`: a value;
* `takes_record`: one node, whose lists are read by any reader that takes them;
* `takes_readWithin`: trees within a room, by induction on the tree;
* `decode_dump`: whole texts.
-/

namespace Formulary

open Json Json.Reader

/-- A value that is read back: a text, or an integer of 64 bits. -/
def Literal.IsExact : Literal → Prop
  | .text _ => True
  | .number (.integer value) => FitsWord value
  | .number (.binary ..) => False

instance : DecidablePred Literal.IsExact
  | .text _ => inferInstanceAs (Decidable True)
  | .number (.integer value) => inferInstanceAs (Decidable (FitsWord value))
  | .number (.binary ..) => inferInstanceAs (Decidable False)

namespace Node

/-! ## Values -/

theorem readLiteral_of_atom {c : Char} {rest after : Text} {value : Value} {literal : Literal}
    (hBlank : isBlank c = false) (hNull : c ≠ 'n') (hList : c ≠ '[') (hObject : c ≠ '\x7b')
    (hAtom : readAtom c (c :: rest) = .ok (value, after))
    (hLiteral : Literal.ofValue? value = some literal) (room : Nat) :
    readLiteral room (c :: rest) = .ok (some literal, after) := by
  have hValue : readValue room (c :: rest) = .ok (value, after) := by
    rw [readValue_of_atom hBlank hList hObject, hAtom]
  rw [readLiteral, bind_of_ok (peek_cons hBlank _ _), if_neg hNull, bind_of_ok hValue, hLiteral]
  rfl

theorem readLiteral_text (content after : Text) (room : Nat) :
    readLiteral room (printString content ++ after) = .ok (some (.text content), after) := by
  have hAtom := readAtom_printString content after
  rw [printString_append] at hAtom ⊢
  exact readLiteral_of_atom (by decide) (by decide) (by decide) (by decide) hAtom rfl room

theorem readLiteral_integer {value : Int} (h : FitsWord value) {after : Text}
    (hAfter : EndsNumeral after) (room : Nat) :
    readLiteral room (Text.ofInt value ++ after) =
      .ok (some (.number (.integer value)), after) := by
  obtain ⟨c, digits, hText, hc⟩ := exists_ofInt_eq_cons value
  have hAtom := readAtom_ofInt h hAfter hText
  rw [hText, List.cons_append] at hAtom ⊢
  exact readLiteral_of_atom hc.isBlank (hc.ne rfl (by decide)) (hc.ne rfl (by decide))
    (hc.ne rfl (by decide)) hAtom rfl room

/-- A value is read back when no numeral goes on behind it. -/
theorem takes_readLiteral {literal : Literal} (h : literal.IsExact) {after : Text}
    (hAfter : EndsNumeral after) (room : Nat) :
    (readLiteral room).Takes (literal.dump ++ after) (some literal) after := by
  cases literal with
  | text content => exact ⟨readLiteral_text content after room, (takes_printString _ _).shorter⟩
  | number content =>
    cases content with
    | integer value =>
      refine ⟨readLiteral_integer h hAfter room, ?_⟩
      obtain ⟨c, digits, hText, -⟩ := exists_ofInt_eq_cons value
      change after.length < (Text.ofInt value ++ after).length
      rw [hText, List.length_append, List.length_cons]
      omega
    | binary negative magnitude => exact h.elim

/-! ## Lists -/

/-- A node that is printed begins an item of a list. -/
theorem nextItem_dumpBefore (node : Node) (after : Text) :
    nextItem true (node.dumpBefore after) = .ok (true, node.dumpBefore after) ∧
      nextItem false (',' :: node.dumpBefore after) = .ok (true, node.dumpBefore after) := by
  rw [dumpBefore_eq]
  exact ⟨nextItem_first (by decide) (by decide) _, nextItem_comma (by decide) (by decide) _⟩

theorem ends_itemsBefore {item : Reader Node} {nodes : List Node}
    (h : ∀ node ∈ nodes, ∀ after, item.Takes (node.dumpBefore after) node after) (after : Text) :
    Ends (readItemsFrom item · false) (itemsBefore nodes (']' :: after)) nodes after := by
  induction nodes with
  | nil => exact ends_items item false after
  | cons node nodes ih =>
    obtain ⟨hNode, hRest⟩ := List.forall_mem_cons.mp h
    exact ends_items_cons (node.nextItem_dumpBefore _).2 (Nat.le_succ _) (hNode _) (ih hRest)

/-- A list of nodes that is printed is read back when its nodes are. -/
theorem takes_listBefore {item : Reader Node} {nodes : List Node}
    (h : ∀ node ∈ nodes, ∀ after, item.Takes (node.dumpBefore after) node after) (hNe : nodes ≠ [])
    (after : Text) : (readList (some item)).Takes (listBefore [] nodes after) nodes after := by
  cases nodes with
  | nil => exact absurd rfl hNe
  | cons node nodes =>
    obtain ⟨hNode, hRest⟩ := List.forall_mem_cons.mp h
    exact takes_list (ends_items_cons (node.nextItem_dumpBefore _).1 (Nat.le_refl _) (hNode _)
      (ends_itemsBefore hRest after))

/-! ## Records -/

theorem listBefore_eq (member : Text) {nodes : List Node} (h : nodes ≠ []) (after : Text) :
    listBefore member nodes after = member ++ listBefore [] nodes after := by
  cases nodes with
  | nil => exact absurd rfl h
  | cons node nodes => rfl

theorem endsNumeral_listBefore (name : Text) (nodes : List Node) {after : Text}
    (h : EndsNumeral after) : EndsNumeral (listBefore (',' :: name) nodes after) := by
  cases nodes with
  | nil => exact h
  | cons node nodes => exact endsNumeral_cons (by decide) (by decide) _

/-- The member of a list is left out when the list is empty, and printed otherwise. -/
theorem text_listBefore {nodes : Reader (List Node)} (key : Text) {list : List Node}
    (hTakes : list ≠ [] → ∀ after, nodes.Takes (listBefore [] list after) list after)
    (after : Text) :
    listBefore (',' :: (printString key ++ [':'])) list after = after ∧ list = [] ∨
      ∃ printed, listBefore (',' :: (printString key ++ [':'])) list after =
        ',' :: (printString key ++ ':' :: printed) ∧ nodes.Takes printed list after := by
  by_cases hList : list = []
  · subst hList
    exact .inl ⟨rfl, rfl⟩
  · refine .inr ⟨listBefore [] list after, ?_, hTakes hList after⟩
    rw [listBefore_eq _ hList, List.cons_append, List.append_assoc]
    rfl

/-- The member of a value is left out when there is none, and printed otherwise. -/
theorem text_valueBefore {value : Option Literal} (hExact : ∀ literal ∈ value, literal.IsExact)
    {after : Text} (hAfter : EndsNumeral after) (room : Nat) :
    valueBefore value after = after ∧ value = none ∨
      ∃ printed, valueBefore value after = ',' :: (printString "value".toList ++ ':' :: printed) ∧
        (readLiteral room).Takes printed value after := by
  cases value with
  | none => exact .inl ⟨rfl, rfl⟩
  | some literal =>
    exact .inr ⟨literal.dump ++ after, rfl, takes_readLiteral (hExact literal rfl) hAfter room⟩

section

variable {text : Reader Text} {literal : Reader (Option Literal)} {nodes : Reader (List Node)}
  {kind : Text} {value : Option Literal} {children args : List Node} {seen : List Text}

theorem missing?_record (h : "type".toList ∈ seen) :
    (record text literal nodes).missing? seen = none := by
  have hNone : ∀ field ∈ (record text literal nodes).fields,
      ¬ (field.required && !seen.contains field.name) = true := by
    simp only [record, List.forall_mem_cons, Bool.true_and, Bool.false_and]
    refine ⟨?_, Bool.false_ne_true, Bool.false_ne_true, Bool.false_ne_true, nofun⟩
    rw [List.contains_iff_mem.mpr h]
    exact Bool.false_ne_true
  rw [Record.missing?, List.find?_eq_none.mpr hNone, Option.map_none]

theorem ends_args (hType : "type".toList ∈ seen) (hArgs : "args".toList ∉ seen)
    (hTakes : args ≠ [] → ∀ after, nodes.Takes (listBefore [] args after) args after)
    (after : Text) :
    Ends (readFieldsFrom (record text literal nodes) · false seen { kind, value, children })
      (listBefore ",\"args\":".toList args ('\x7d' :: after)) { kind, value, children, args }
      after := by
  refine ends_fields_optional "args".toList rfl rfl rfl hArgs
    (text_listBefore "args".toList hTakes _) fun keys hKeys => ?_
  exact ends_fields (missing?_record ((hKeys _ (by decide)).mpr hType)) false _ after

theorem ends_children (hType : "type".toList ∈ seen) (hChildren : "children".toList ∉ seen)
    (hArgs : "args".toList ∉ seen)
    (hTakes : ∀ list, list = children ∨ list = args → list ≠ [] → ∀ after,
      nodes.Takes (listBefore [] list after) list after) (after : Text) :
    Ends (readFieldsFrom (record text literal nodes) · false seen { kind, value })
      (listBefore ",\"children\":".toList children
        (listBefore ",\"args\":".toList args ('\x7d' :: after)))
      { kind, value, children, args } after := by
  refine ends_fields_optional "children".toList rfl rfl rfl hChildren
    (text_listBefore "children".toList (hTakes _ (.inl rfl)) _) fun keys hKeys => ?_
  exact ends_args ((hKeys _ (by decide)).mpr hType) (mt (hKeys _ (by decide)).mp hArgs)
    (hTakes _ (.inr rfl)) after

end

/-- A node is read back when its value is exact and its lists are read back. -/
theorem takes_record {nodes : Reader (List Node)} {node : Node}
    (hExact : ∀ literal ∈ node.value, literal.IsExact)
    (hNodes : ∀ list, list = node.children ∨ list = node.args → list ≠ [] →
      ∀ after, nodes.Takes (listBefore [] list after) list after)
    (room : Nat) (after : Text) :
    (readRecord "Node".toList (some (record readText (readLiteral room) nodes))).Takes
      (node.dumpBefore after) node after := by
  obtain ⟨kind, value, children, args⟩ := node
  have hEnds : EndsNumeral (listBefore ",\"children\":".toList children
      (listBefore ",\"args\":".toList args ('\x7d' :: after))) :=
    endsNumeral_listBefore _ _ (endsNumeral_listBefore _ _
      (endsNumeral_cons (by decide) (by decide) after))
  have hValue : Ends (readFieldsFrom (record readText (readLiteral room) nodes) · false
      ["type".toList] { kind }) (valueBefore value (listBefore ",\"children\":".toList children
        (listBefore ",\"args\":".toList args ('\x7d' :: after)))) ⟨kind, value, children, args⟩
      after := by
    refine ends_fields_optional "value".toList rfl rfl rfl (by decide)
      (text_valueBefore hExact hEnds room) fun keys hKeys => ?_
    exact ends_children ((hKeys _ (by decide)).mpr (by decide))
      (mt (hKeys _ (by decide)).mp (by decide)) (mt (hKeys _ (by decide)).mp (by decide))
      hNodes after
  exact Json.takes_record _ (ends_fields_cons (nextKey_first "type".toList _)
    (length_le_member "type".toList _) rfl List.not_mem_nil ((takes_printString kind _).map _)
    hValue)

/-! ## Trees -/

/-- The values of a tree are read back. -/
def IsExact (node : Node) : Prop :=
  ∀ below ∈ node.visits, ∀ literal ∈ below.value, literal.IsExact

theorem IsExact.of_mem {node below : Node} (h : node.IsExact)
    (hBelow : below ∈ node.children ∨ below ∈ node.args) : below.IsExact :=
  fun other hOther => h other (mem_visits.mpr (.inr ⟨below, hBelow, hOther⟩))

/-- A tree within the room is read back. -/
theorem takes_readWithin {node : Node} (hExact : node.IsExact) {room : Nat}
    (hRoom : 2 * node.height ≤ room + 1) (after : Text) :
    (readWithin room).Takes (node.dumpBefore after) node after := by
  induction node using Node.induction generalizing room after with
  | h node hChildren hArgs =>
    have hHere : ∀ literal ∈ node.value, literal.IsExact := hExact node node.mem_visits_self
    have hPos := node.height_pos
    match room with
    | 0 => omega
    | 1 =>
      -- There is no room for a list, and the tree has none.
      have hNone : ∀ below, ¬ (below ∈ node.children ∨ below ∈ node.args) := by
        intro below hBelow
        have hLt := height_lt_of_mem hBelow
        have hPos := below.height_pos
        omega
      refine takes_record hHere (fun list hList hNe => ?_) 0 after
      obtain ⟨below, hBelow⟩ := List.exists_mem_of_ne_nil list hNe
      rcases hList with rfl | rfl
      · exact absurd (.inl hBelow) (hNone below)
      · exact absurd (.inr hBelow) (hNone below)
    | room + 2 =>
      have hBelow : ∀ below, below ∈ node.children ∨ below ∈ node.args → ∀ after,
          (readWithin room).Takes (below.dumpBefore after) below after := by
        intro below hMem after
        have hLt := height_lt_of_mem hMem
        exact hMem.elim (fun h => hChildren below h (hExact.of_mem hMem) (by omega) after)
          (fun h => hArgs below h (hExact.of_mem hMem) (by omega) after)
      refine takes_record hHere (fun list hList hNe => ?_) (room + 1) after
      refine takes_listBefore (fun below hMem => hBelow below ?_) hNe
      rcases hList with rfl | rfl
      · exact .inl hMem
      · exact .inr hMem

theorem decode_of_height_le {node : Node} (hHeight : node.height ≤ 64) (hExact : node.IsExact) :
    decode node.dump = .ok node := by
  have hRoom : 2 * node.height ≤ nestingLimit + 1 := by
    unfold nestingLimit
    omega
  have hTakes := takes_readWithin hExact hRoom []
  rw [decode, readWholeText, dump, hTakes.reads]
  rfl

end Node

/-- A tree of at most 64 levels whose numbers are integers of 64 bits is read back from its dump as
it was, so that no other such tree has this dump. The shape of the tree is all that is checked
behind that. A node of a kind without a tag is also read back from its markup. -/
theorem decode_dump (node : Node) (hHeight : node.height ≤ 64) (hExact : node.IsExact) :
    Node.decode node.dump = .ok node ∧
      (Node.decode node.dump).map Node.dump = .ok node.dump ∧
      (∀ other : Node, other.height ≤ 64 → other.IsExact → other.dump = node.dump →
        other = node) ∧
      Node.ofJson node.dump = (do node.validate.mapError Failure.render; return node) ∧
      ∀ settings : Settings, node.tag? = none → 0 < settings.maxDepth →
        ∃ markup, (render settings node).outcome = .ok markup ∧
          Node.decode markup = .ok node := by
  have hDecode := Node.decode_of_height_le hHeight hExact
  refine ⟨hDecode, ?_, fun other hOtherHeight hOtherExact hDump => ?_, ?_,
    fun settings hTag hDepth => ⟨node.dump, ?_, hDecode⟩⟩
  · rw [hDecode]
    rfl
  · have hOther := Node.decode_of_height_le hOtherHeight hOtherExact
    rw [hDump, hDecode] at hOther
    exact (Except.ok.inj hOther).symm
  · rw [Node.ofJson, hDecode]
    rfl
  · rw [render_of_tag?_eq_none hTag hDepth]

/-- A tree of an unknown kind with a text and a number of the same digits, the least and the
greatest integer, and characters that are escaped or take several bytes. -/
def mixedTree : Node where
  kind := "det \"2\"\u0000".toList
  value := some (.text "5".toList)
  children := [
    .leaf "const".toList (.number (.integer 5)),
    (Node.leaf "\\\n\u001f".toList (.text "ж😀/".toList)).withArgs
      [.leaf [] (.number (.integer (-9223372036854775808)))]]
  args := [.leaf "var".toList (.number (.integer 18446744073709551615)), .ofChildren [] []]

theorem decode_dump_mixed :
    mixedTree.height ≤ 64 ∧ mixedTree.IsExact ∧ mixedTree.tag? = none ∧
      0 < ({} : Settings).maxDepth ∧ Node.decode mixedTree.dump = .ok mixedTree ∧
      ∃ markup, (render {} mixedTree).outcome = .ok markup ∧
        Node.decode markup = .ok mixedTree := by
  have hHeight : mixedTree.height ≤ 64 := by decide
  have hExact : mixedTree.IsExact := by
    unfold Node.IsExact
    decide
  have hTag : mixedTree.tag? = none := by decide +kernel
  have hDepth : 0 < ({} : Settings).maxDepth := by decide
  obtain ⟨hDecode, -, -, -, hMarkup⟩ := decode_dump mixedTree hHeight hExact
  exact ⟨hHeight, hExact, hTag, hDepth, hDecode, hMarkup {} hTag hDepth⟩

end Formulary
