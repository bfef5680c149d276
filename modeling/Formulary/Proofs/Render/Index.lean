import Formulary.Proofs.Render.Reach
import Formulary.Proofs.Text.Search
import Mathlib.Data.Nat.Find

/-!
# Indices of variables

An index of a name is a longest run of digits that directly follows an underscore (`IsIndex`).
`braceIndices` finds indices while it reads the name once and remembers only a spot. `spotAt` is the
spot at a place, and it tells what stands before the place.

* `spotAt_eq_behind_iff`, `spotAt_eq_inside_iff`: an underscore, or an underscore and digits;
* `braceIndices_eq`: a brace opens where an index begins and closes where it ends, and nothing else
  changes;
* `braceIndices_braced`: digits that have their braces keep them;
* `braceIndices_braceIndices`: no index is left without braces.
-/

namespace Formulary

open Text

/-! ## Indices by themselves -/

/-- The character at a place is a digit. -/
def digitAt (text : Text) (place : Nat) : Bool := text[place]?.any Unicode.isDigit

/-- The character before a place is an underscore. -/
def FollowsUnderscore (text : Text) (place : Nat) : Prop :=
  0 < place ∧ text[place - 1]? = some '_'

/-- From `start` up to before `stop` stands a longest run of digits that directly follows an
underscore. -/
structure IsIndex (text : Text) (start stop : Nat) : Prop where
  follows : FollowsUnderscore text start
  nonempty : start < stop
  digits : ∀ place, start ≤ place → place < stop → digitAt text place
  longest : digitAt text stop = false

/-- An index begins at a place. -/
def BeginsIndex (text : Text) (place : Nat) : Prop := ∃ stop, IsIndex text place stop

/-- An index ends right before a place. -/
def EndsIndex (text : Text) (place : Nat) : Prop := ∃ start, IsIndex text start place

/-! ## Spots -/

/-- The spot behind a character. -/
def IndexSpot.next (spot : IndexSpot) (c : Char) : IndexSpot :=
  if spot ≠ .outside ∧ Unicode.isDigit c then .inside else .after c

/-- The spot at a place of a text. -/
def spotAt (text : Text) (place : Nat) : IndexSpot :=
  (text.take place).foldl IndexSpot.next .outside

/-- The brace that is put at a spot, before a digit or before anything else. -/
def IndexSpot.brace : IndexSpot → Bool → Text
  | .inside, false => ['\x7d']
  | .behind, true => ['\x7b']
  | _, _ => []

theorem braceIndicesFrom_nil (spot : IndexSpot) : braceIndicesFrom spot [] = spot.brace false := by
  cases spot <;> rfl

theorem braceIndicesFrom_cons (spot : IndexSpot) (c : Char) (rest : Text) :
    braceIndicesFrom spot (c :: rest) =
      spot.brace (Unicode.isDigit c) ++ c :: braceIndicesFrom (spot.next c) rest := by
  cases hDigit : Unicode.isDigit c <;> cases spot <;>
    simp [braceIndicesFrom, IndexSpot.brace, IndexSpot.next, hDigit]

section Spots

variable {spot : IndexSpot} {c : Char} {text : Text} {place : Nat}

theorem next_eq_behind_iff : spot.next c = .behind ↔ c = '_' := by
  rw [IndexSpot.next]
  split
  · rename_i hDigit
    refine iff_of_false nofun ?_
    rintro rfl
    exact absurd hDigit.2 (by decide)
  · rw [IndexSpot.after]
    split <;> simp_all

theorem next_eq_inside_iff : spot.next c = .inside ↔ spot ≠ .outside ∧ Unicode.isDigit c := by
  rw [IndexSpot.next]
  split
  · exact iff_of_true rfl ‹_›
  · refine iff_of_false ?_ ‹_›
    rw [IndexSpot.after]
    split <;> nofun

theorem spotAt_succ (h : text[place]? = some c) :
    spotAt text (place + 1) = (spotAt text place).next c := by
  rw [spotAt, List.take_add_one, h, Option.toList_some, List.foldl_append]
  rfl

theorem spotAt_eq_behind_iff (hPlace : place ≤ text.length) :
    spotAt text place = .behind ↔ FollowsUnderscore text place := by
  cases place with
  | zero => exact iff_of_false nofun fun h => absurd h.1 (Nat.lt_irrefl 0)
  | succ place =>
    have hChar : text[place]? = some text[place] := List.getElem?_eq_getElem hPlace
    rw [spotAt_succ hChar, next_eq_behind_iff, FollowsUnderscore, Nat.add_sub_cancel, hChar,
      Option.some.injEq]
    exact (and_iff_right (Nat.succ_pos place)).symm

/-- A reading is inside an index when it has passed an underscore and since then digits only. -/
theorem spotAt_eq_inside_iff (hPlace : place ≤ text.length) :
    spotAt text place = .inside ↔ ∃ start, FollowsUnderscore text start ∧ start < place ∧
      ∀ other, start ≤ other → other < place → digitAt text other := by
  induction place with
  | zero => exact iff_of_false nofun fun ⟨_, _, hLess, _⟩ => absurd hLess (Nat.not_lt_zero _)
  | succ place ih =>
    have hChar : text[place]? = some text[place] := List.getElem?_eq_getElem hPlace
    have hDigit : digitAt text place = Unicode.isDigit text[place] := by
      rw [digitAt, hChar, Option.any_some]
    rw [spotAt_succ hChar, next_eq_inside_iff, ← hDigit]
    constructor
    · rintro ⟨hSpot, hHere⟩
      cases hBefore : spotAt text place with
      | outside => exact absurd hBefore hSpot
      | behind =>
        refine ⟨place, (spotAt_eq_behind_iff (Nat.le_of_succ_le hPlace)).mp hBefore,
          Nat.lt_succ_self place, fun other hStart hOther => ?_⟩
        rwa [Nat.le_antisymm (Nat.le_of_lt_succ hOther) hStart]
      | inside =>
        obtain ⟨start, hFollows, hLess, hDigits⟩ := (ih (Nat.le_of_succ_le hPlace)).mp hBefore
        refine ⟨start, hFollows, Nat.lt_succ_of_lt hLess, fun other hStart hOther => ?_⟩
        rcases Nat.lt_succ_iff_lt_or_eq.mp hOther with hEarlier | rfl
        · exact hDigits other hStart hEarlier
        · exact hHere
    · rintro ⟨start, hFollows, hLess, hDigits⟩
      refine ⟨?_, hDigits place (Nat.le_of_lt_succ hLess) (Nat.lt_succ_self place)⟩
      rcases Nat.lt_succ_iff_lt_or_eq.mp hLess with hEarlier | rfl
      · have hInside := (ih (Nat.le_of_succ_le hPlace)).mpr ⟨start, hFollows, hEarlier,
          fun other hStart hOther => hDigits other hStart (Nat.lt_succ_of_lt hOther)⟩
        rw [hInside]
        nofun
      · rw [(spotAt_eq_behind_iff (Nat.le_of_succ_le hPlace)).mpr hFollows]
        nofun

theorem lt_length_of_digitAt (h : digitAt text place) : place < text.length := by
  by_contra hLess
  rw [digitAt, List.getElem?_eq_none (Nat.le_of_not_lt hLess)] at h
  cases h

theorem beginsIndex_iff :
    BeginsIndex text place ↔ spotAt text place = .behind ∧ digitAt text place := by
  constructor
  · rintro ⟨stop, hIndex⟩
    have hHere := hIndex.digits place (Nat.le_refl place) hIndex.nonempty
    have hPlace := Nat.le_of_lt (lt_length_of_digitAt hHere)
    exact ⟨(spotAt_eq_behind_iff hPlace).mpr hIndex.follows, hHere⟩
  · rintro ⟨hBehind, hHere⟩
    have hPlace := Nat.le_of_lt (lt_length_of_digitAt hHere)
    -- The index ends at the first place behind its beginning that has no digit.
    have hEnd : ∃ stop, place ≤ stop ∧ digitAt text stop = false :=
      ⟨text.length, hPlace, by simp [digitAt]⟩
    obtain ⟨hLe, hLongest⟩ := Nat.find_spec hEnd
    refine ⟨Nat.find hEnd, (spotAt_eq_behind_iff hPlace).mp hBehind, ?_, ?_, hLongest⟩
    · refine Nat.lt_of_le_of_ne hLe fun hEq => ?_
      rw [← hEq, hHere] at hLongest
      cases hLongest
    · intro other hStart hOther
      have hNot := Nat.find_min hEnd hOther
      simpa [hStart] using hNot

theorem endsIndex_iff : EndsIndex text place ↔
    place ≤ text.length ∧ spotAt text place = .inside ∧ digitAt text place = false := by
  constructor
  · rintro ⟨start, hIndex⟩
    have hLast := hIndex.digits (place - 1) (Nat.le_sub_one_of_lt hIndex.nonempty)
      (Nat.sub_one_lt_of_lt hIndex.nonempty)
    have hPlace : place ≤ text.length := Nat.le_of_pred_lt (lt_length_of_digitAt hLast)
    exact ⟨hPlace, (spotAt_eq_inside_iff hPlace).mpr
      ⟨start, hIndex.follows, hIndex.nonempty, hIndex.digits⟩, hIndex.longest⟩
  · rintro ⟨hPlace, hInside, hLongest⟩
    obtain ⟨start, hFollows, hLess, hDigits⟩ := (spotAt_eq_inside_iff hPlace).mp hInside
    exact ⟨start, hFollows, hLess, hDigits, hLongest⟩

instance (text : Text) (place : Nat) : Decidable (BeginsIndex text place) :=
  decidable_of_iff _ beginsIndex_iff.symm

instance (text : Text) (place : Nat) : Decidable (EndsIndex text place) :=
  decidable_of_iff _ endsIndex_iff.symm

end Spots

/-! ## Braces -/

/-- The braces of a text at a place: one closes where an index ends, and one opens where an index
begins. -/
def bracesAt (text : Text) (place : Nat) : Text :=
  (if EndsIndex text place then ['\x7d'] else []) ++ if BeginsIndex text place then ['\x7b'] else []

theorem bracesAt_eq {text : Text} {place : Nat} (hPlace : place ≤ text.length) :
    bracesAt text place = (spotAt text place).brace (digitAt text place) := by
  rw [bracesAt, if_congr endsIndex_iff rfl rfl, if_congr beginsIndex_iff rfl rfl]
  cases spotAt text place <;> cases digitAt text place <;> simp [IndexSpot.brace, hPlace]

/-- Braces are put around every index, and nothing else changes. -/
theorem braceIndices_eq (text : Text) :
    braceIndices text =
      atPlaces (fun place c => bracesAt text place ++ [c]) text ++ bracesAt text text.length := by
  refine @eq_atPlaces_append
    (fun before rest => braceIndicesFrom (spotAt text before.length) rest) _ text _ ?_ ?_
  · rw [braceIndicesFrom_nil, bracesAt_eq (Nat.le_refl _), digitAt,
      List.getElem?_eq_none (Nat.le_refl _), Option.any_none]
  · intro before c rest hText
    have hChar : text[before.length]? = some c := by
      rw [hText, List.getElem?_append_right (Nat.le_refl _), Nat.sub_self, List.getElem?_cons_zero]
    have hPlace : before.length ≤ text.length := by rw [hText, List.length_append]; omega
    rw [braceIndicesFrom_cons, bracesAt_eq hPlace, digitAt, hChar, Option.any_some,
      List.length_append, List.length_singleton, spotAt_succ hChar, List.append_assoc,
      List.singleton_append]

/-! ## Indices that have braces -/

theorem isDigit_underscore : Unicode.isDigit '_' = false := by decide

theorem braceIndicesFrom_underscore (spot : IndexSpot) (before rest : Text) :
    braceIndicesFrom spot (before ++ '_' :: rest) =
      braceIndicesFrom spot before ++ '_' :: braceIndicesFrom .behind rest := by
  induction before generalizing spot with
  | nil =>
    rw [List.nil_append, braceIndicesFrom_cons, braceIndicesFrom_nil, isDigit_underscore,
      next_eq_behind_iff.mpr rfl]
  | cons c before ih =>
    rw [List.cons_append, braceIndicesFrom_cons, braceIndicesFrom_cons, ih, List.append_assoc]
    rfl

theorem braceIndicesFrom_digits {digits : Text} (h : ∀ d ∈ digits, Unicode.isDigit d)
    (rest : Text) :
    braceIndicesFrom .outside (digits ++ rest) = digits ++ braceIndicesFrom .outside rest := by
  induction digits with
  | nil => rfl
  | cons d digits ih =>
    obtain ⟨hDigit, hDigits⟩ := List.forall_mem_cons.mp h
    have hNot : d ≠ '_' := by
      rintro rfl
      rw [isDigit_underscore] at hDigit
      cases hDigit
    rw [List.cons_append, braceIndicesFrom, IndexSpot.after, if_neg hNot, ih hDigits]
    rfl

/-- Digits that have their braces keep them, and what stands on both sides is written by itself. -/
theorem braceIndices_braced (before : Text) {digits : Text}
    (h : ∀ d ∈ digits, Unicode.isDigit d) (after : Text) :
    braceIndices (before ++ '_' :: (braced digits ++ after)) =
      braceIndices before ++ '_' :: (braced digits ++ braceIndices after) := by
  have hOpen : Unicode.isDigit '\x7b' = false := by decide
  have hInner : braceIndicesFrom .behind (braced digits ++ after) =
      braced digits ++ braceIndices after := by
    rw [braced, List.append_assoc, List.cons_append, braceIndicesFrom_cons, hOpen]
    change '\x7b' :: braceIndicesFrom .outside (digits ++ '\x7d' :: after) = _
    rw [braceIndicesFrom_digits h]
    simp [braceIndicesFrom, IndexSpot.after, braceIndices]
  rw [braceIndices, braceIndicesFrom_underscore, hInner]
  rfl

/-- The spot before what is written from a spot: the brace of an index stands outside. -/
def IndexSpot.written : IndexSpot → IndexSpot
  | .inside => .outside
  | spot => spot

theorem written_after (c : Char) : (IndexSpot.after c).written = .after c := by
  rw [IndexSpot.after]
  split <;> rfl

theorem next_outside (c : Char) : IndexSpot.outside.next c = .after c :=
  if_neg fun h => h.1 rfl

theorem next_of_not_digit {c : Char} (h : Unicode.isDigit c = false) (spot : IndexSpot) :
    spot.next c = .after c :=
  if_neg fun hDigit => Bool.false_ne_true (h.symm.trans hDigit.2)

theorem next_of_digit {c : Char} (h : Unicode.isDigit c) (spot : IndexSpot)
    (hSpot : spot ≠ .outside) : spot.next c = .inside :=
  if_pos ⟨hSpot, h⟩

/-- What is written has no index left without braces. -/
theorem braceIndicesFrom_written (spot : IndexSpot) (text : Text) :
    braceIndicesFrom spot.written (braceIndicesFrom spot text) = braceIndicesFrom spot text := by
  induction text generalizing spot with
  | nil => cases spot <;> decide
  | cons c rest ih =>
    -- Read again, the character has no brace put before it.
    have hStep : ∀ {first next : IndexSpot}, first.brace (Unicode.isDigit c) = [] →
        first.next c = next.written →
          braceIndicesFrom first (c :: braceIndicesFrom next rest) =
            c :: braceIndicesFrom next rest := by
      intro first next hBrace hNext
      rw [braceIndicesFrom_cons, hBrace, hNext, ih, List.nil_append]
    have hOutside : ∀ {next : IndexSpot}, IndexSpot.after c = next.written →
        braceIndicesFrom .outside (c :: braceIndicesFrom next rest) =
          c :: braceIndicesFrom next rest :=
      fun hNext => hStep rfl ((next_outside c).trans hNext)
    rw [braceIndicesFrom_cons]
    cases hDigit : Unicode.isDigit c with
    | false =>
      have hAfter := (written_after c).symm
      rw [next_of_not_digit hDigit]
      cases spot with
      | outside => exact hOutside hAfter
      | behind => exact hStep (by rw [hDigit]; rfl) ((next_of_not_digit hDigit _).trans hAfter)
      | inside => exact congrArg ('\x7d' :: ·) (hOutside hAfter)
    | true =>
      have hNot : c ≠ '_' := by
        rintro rfl
        rw [isDigit_underscore] at hDigit
        cases hDigit
      have hAfter : IndexSpot.after c = .outside := if_neg hNot
      cases spot with
      | outside =>
        rw [next_outside, hAfter]
        exact hOutside hAfter
      | behind =>
        rw [next_of_digit hDigit .behind nofun]
        exact congrArg ('\x7b' :: ·) (hOutside hAfter)
      | inside =>
        rw [next_of_digit hDigit .inside nofun]
        exact hOutside hAfter

theorem braceIndices_braceIndices (text : Text) :
    braceIndices (braceIndices text) = braceIndices text :=
  braceIndicesFrom_written .outside text

/-! ## Variables -/

theorem renderWithin_variable {settings : Settings} {room : Nat} {node : Node} {text : Text}
    (hTag : node.tag? = some .variable) (hText : node.text? = some text) :
    renderWithin settings (room + 1) node = .ok (braceIndices text) := by
  obtain ⟨kind, value, children, args⟩ := node
  obtain ⟨literal, rfl, rfl⟩ := Option.map_eq_some_iff.mp hText
  have hPlan : Node.plan ⟨kind, some literal, children, args⟩ =
      .ok (.write (braceIndices literal.asText)) := (Node.plan_eq_ok_iff hTag).mpr ⟨rfl, rfl⟩
  rw [renderWithin_succ, hPlan]
  rfl

/-- A variable is its name with braces around every index and nothing else changed: an index that
has its braces keeps them, and with the braces there is nothing left to do. -/
theorem render_variable :
    (∀ settings room node text, node.kind = "var".toList → node.text? = some text →
      renderWithin settings (room + 1) node = .ok (braceIndices text)) ∧
    (∀ text, braceIndices text =
      atPlaces (fun place c => bracesAt text place ++ [c]) text ++ bracesAt text text.length) ∧
    (∀ before digits after, (∀ d ∈ digits, Unicode.isDigit d) →
      braceIndices (before ++ '_' :: (braced digits ++ after)) =
        braceIndices before ++ '_' :: (braced digits ++ braceIndices after)) ∧
    ∀ text, braceIndices (braceIndices text) = braceIndices text := by
  refine ⟨fun settings room node text hKind hText => ?_, braceIndices_eq,
    fun before digits after h => braceIndices_braced before h after, braceIndices_braceIndices⟩
  have hTag : node.tag? = some .variable := by rw [Node.tag?, hKind]; decide
  exact renderWithin_variable hTag hText

/-- Two underscores, digits before one, an index that has its braces, and digits of two scripts. -/
def scriptsName : Text := "a__12_\x7b3\x7d4_5६".toList

theorem render_variable_scriptsName :
    renderWithin {} 1 (.leaf "var".toList (.text scriptsName)) =
        .ok "a__\x7b12\x7d_\x7b3\x7d4_\x7b5६\x7d".toList ∧
      braceIndices ("a__12".toList ++ '_' :: (braced ['3'] ++ "4_5६".toList)) =
        braceIndices "a__12".toList ++ '_' :: (braced ['3'] ++ braceIndices "4_5६".toList) := by
  obtain ⟨hRender, -, hKeeps, -⟩ := render_variable
  have hDigits : ∀ d ∈ ['3'], Unicode.isDigit d := List.all_eq_true.mp (by decide)
  exact ⟨(hRender {} 0 _ scriptsName rfl rfl).trans (congrArg Run.ok (by decide)),
    hKeeps _ _ _ hDigits⟩

end Formulary
