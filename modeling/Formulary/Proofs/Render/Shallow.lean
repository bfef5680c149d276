import Formulary.Proofs.Json.Yields
import Formulary.Proofs.Render.Checked

/-!
# Trees that are read are shallow

A node takes two levels of the room of its reader, one for itself and one for the list in which its
children or its arguments stand, in both forms of a record. What is read within the nesting limit is
therefore at most 64 nodes high, and a depth limit of 64 levels or more is never exceeded by a tree
that comes from a text.

* `yields_readWithin`: twice the height of a node that is read is at most the room and one more;
* `render_ne_depthExceeded`: a tree that is no higher than the depth limit does not exceed it;
* `shallow_of_ofJson`: both for whole texts.
-/

namespace Formulary

open Json (Reader yields_readRecord yields_readList)

namespace Node

/-! ## Height and room -/

theorem height_le {node : Node} {bound : Nat}
    (h : ∀ below, below ∈ node.children ∨ below ∈ node.args → below.height ≤ bound) :
    node.height ≤ bound + 1 := by
  rw [height_eq]
  exact Nat.succ_le_succ (Nat.max_le.mpr ⟨peak_le fun below hBelow => h below (.inl hBelow),
    peak_le fun below hBelow => h below (.inr hBelow)⟩)

/-- The children and arguments of a node fit a room of so many lists and objects. -/
def IsLow (room : Nat) (node : Node) : Prop :=
  ∀ below, below ∈ node.children ∨ below ∈ node.args → 2 * below.height ≤ room

/-- A node whose children and arguments fit a room takes two more. -/
theorem IsLow.height_le {room : Nat} {node : Node} (h : node.IsLow room) :
    2 * node.height ≤ room + 2 := by
  have hHalf : node.height ≤ room / 2 + 1 := Node.height_le fun below hBelow => by
    have := h below hBelow
    omega
  omega

/-- Every field of a node keeps its children and arguments low when the nodes that are read are. -/
theorem keeps_record {text : Reader Text} {literal : Reader (Option Literal)}
    {nodes : Reader (List Node)} {room : Nat}
    (h : nodes.Yields fun read => ∀ below ∈ read, 2 * below.height ≤ room) :
    (record text literal nodes).Keeps (IsLow room) where
  blank := by
    rintro below (hBelow | hBelow) <;> cases hBelow
  fields := by
    -- The fields in their order: kind, value, children and arguments.
    refine List.forall_mem_cons.mpr ⟨?_, List.forall_mem_cons.mpr ⟨?_,
      List.forall_mem_cons.mpr ⟨?_, List.forall_mem_cons.mpr ⟨?_, nofun⟩⟩⟩⟩
    · exact Reader.yields_bind fun kind => Reader.yields_pure fun node hNode => hNode
    · exact Reader.yields_bind fun value => Reader.yields_pure fun node hNode => hNode
    · refine h.bind fun children hChildren => Reader.yields_pure fun node hNode below hBelow => ?_
      exact hBelow.elim (hChildren below) fun hArg => hNode below (.inr hArg)
    · refine h.bind fun args hArgs => Reader.yields_pure fun node hNode below hBelow => ?_
      exact hBelow.elim (fun hChild => hNode below (.inl hChild)) (hArgs below)

theorem yields_readWithin (room : Nat) :
    (readWithin room).Yields fun node => 2 * node.height ≤ room + 1 := by
  have hRecord : ∀ {record? : Option (Json.Record Reader Node)} {below : Nat},
      (∀ record ∈ record?, record.Keeps (IsLow below)) →
        (Json.readRecord "Node".toList record?).Yields fun node => 2 * node.height ≤ below + 2 :=
    fun h text node rest hNode => (yields_readRecord _ h text node rest hNode).height_le
  induction room using readWithin.induct with
  | case1 => exact yields_readRecord _ nofun
  | case2 =>
    refine hRecord fun record hMem => ?_
    cases hMem
    exact keeps_record (yields_readList nofun)
  | case3 room ih =>
    refine hRecord fun record hMem => ?_
    cases hMem
    refine keeps_record (yields_readList fun item hItem => ?_)
    cases hItem
    exact ih

theorem height_le_of_decode {text : Text} {node : Node} (h : decode text = .ok node) :
    node.height ≤ 64 := by
  obtain ⟨rest, hRead⟩ := Json.exists_of_readWholeText h
  have hHeight : 2 * node.height ≤ Json.nestingLimit + 1 := yields_readWithin _ _ _ _ hRead
  unfold Json.nestingLimit at hHeight
  omega

theorem height_le_of_ofJson {text : Text} {node : Node} (h : ofJson text = .ok node) :
    node.height ≤ 64 := by
  obtain ⟨decoded, hDecoded, hRest⟩ := exists_of_bind_ok h
  obtain ⟨⟨⟩, -, hPure⟩ := exists_of_bind_ok hRest
  cases hPure
  exact height_le_of_decode (of_mapError_ok hDecoded)

/-! ## Height and the depth limit -/

/-- A check of the shape does not look at the depth. -/
theorem validate_ne_depthExceeded (node : Node) (limit : Nat) :
    node.validate ≠ .error (.depthExceeded limit) := by
  intro h
  obtain ⟨below, -, hBelow⟩ := exists_of_forM_error h
  unfold check at hBelow
  split at hBelow
  · exact check_ne _ _ _ hBelow
  · cases hBelow

theorem ofJson_ne_depthExceeded (text : Text) (limit : Nat) :
    ofJson text ≠ .error (.render (.depthExceeded limit)) := by
  intro h
  rcases bind_error h with hDecode | ⟨node, -, hRest⟩
  · obtain ⟨fault, -, hFault⟩ := exists_of_mapError_error hDecode
    cases hFault
  · rcases bind_error hRest with hValidate | ⟨⟨⟩, -, hPure⟩
    · obtain ⟨error, hShape, hError⟩ := exists_of_mapError_error hValidate
      cases hError
      exact node.validate_ne_depthExceeded limit hShape
    · cases hPure

end Node

theorem render_ne_depthExceeded {settings : Settings} {node : Node}
    (h : node.height ≤ settings.maxDepth) (limit : Nat) :
    (render settings node).outcome ≠ .error (.depthExceeded limit) := by
  obtain ⟨least, run, hThreshold, hLeast, -⟩ := hasThreshold_render settings node
  have hRun : render settings node = run :=
    hThreshold.above settings.maxDepth settings.maxDepth (Nat.le_trans hLeast h)
  rw [hRun]
  exact hThreshold.proper limit

/-- A tree that is read from a text, whichever forms its nodes have there, is at most 64 nodes high,
and with at least as many levels to render, converting a text never exceeds the limit. -/
theorem shallow_of_ofJson :
    (∀ (text : Text) (node : Node), Node.ofJson text = .ok node → node.height ≤ 64) ∧
    ∀ (settings : Settings) (text : Text), 64 ≤ settings.maxDepth → ∀ limit,
      (convertJson settings text).outcome ≠ .error (.render (.depthExceeded limit)) := by
  refine ⟨fun text node => Node.height_le_of_ofJson, fun settings text hLimit limit hError => ?_⟩
  rcases Run.outcome_bind_error hError with hRead | ⟨node, hRead, hConvert⟩
  · exact Node.ofJson_ne_depthExceeded text limit hRead
  · have hLow : node.height ≤ settings.maxDepth :=
      Nat.le_trans (Node.height_le_of_ofJson hRead) hLimit
    obtain ⟨error, hOutcome, hEq⟩ := exists_of_mapError_error hConvert
    cases hEq
    exact render_ne_depthExceeded hLow limit (render_of_convert_error hOutcome)

/-- A text of a tree with so many nodes above its leaf. The leaf is an object with a member that no
node has, the nodes above it are lists. -/
def tallText (above : Nat) : Text :=
  (List.replicate above "[\"negative\",null,[".toList).flatten ++
    ("\x7b\"other\":[[\"\"]],\"type\":\"const\",\"value\":\"1\"\x7d".toList ++
      (List.replicate above "]]".toList).flatten)

theorem shallow_of_ofJson_tall :
    ∃ node, Node.ofJson (tallText 63) = .ok node ∧ node.height = 64 ∧ node.height ≤ 64 ∧
      (Node.ofJson (tallText 64)).toBool = false ∧
      64 ≤ ({ maxDepth := 64 } : Settings).maxDepth ∧
      (∀ limit, (convertJson { maxDepth := 64 } (tallText 63)).outcome ≠
        .error (.render (.depthExceeded limit))) ∧
      (convertJson { maxDepth := 63 } (tallText 63)).outcome =
        .error (.render (.depthExceeded 63)) := by
  have hHeight : (Node.ofJson (tallText 63)).toOption.map Node.height = some 64 := by
    decide +kernel
  have hTaller : (Node.ofJson (tallText 64)).toBool = false := by decide +kernel
  have hLower : (convertJson { maxDepth := 63 } (tallText 63)).outcome =
      .error (.render (.depthExceeded 63)) := by decide +kernel
  obtain ⟨hShallow, hConvert⟩ := shallow_of_ofJson
  cases hRead : Node.ofJson (tallText 63) with
  | error failure =>
    rw [hRead] at hHeight
    cases hHeight
  | ok node =>
    rw [hRead] at hHeight
    exact ⟨node, rfl, Option.some.inj hHeight, hShallow _ node hRead, hTaller, Nat.le_refl 64,
      hConvert _ _ (Nat.le_refl 64), hLower⟩

end Formulary
