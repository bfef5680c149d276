import Formulary.Proofs.Delimiter.Group
import Mathlib.Data.List.Forall2

/-!
# What is sized, place by place

`fitText` gives a side to every character of a text at once. `sideAt` tells the side of one
character, and here it is read off the text around this character. Nothing is sized but bare
delimiters in sized groups (`exists_of_sideAt`). A parenthesis that opens is sized unless it was,
and one that closes is sized along with the one it closes, unless it was (`sizesParens_sideAt`).

The sides within a group are those that `fit` gives with what it remembers of the marks before:
`openedBehind` the parentheses that are open, and how many loose pipes have been passed
(`fit_append`).
-/

namespace Formulary.Delimiter

/-! ## Sized places -/

/-- Whether the marks of a chunk stand in a group that is sized. -/
def Chunk.places : Chunk → List Bool
  | .loose marked => marked.map fun _ => false
  | .group marked => marked.map fun _ => hasFraction marked

/-- For each character of a text, whether it stands in an outermost group around a fraction. -/
def sizedPlaces (text : Text) : List Bool := (chunks text).flatMap Chunk.places

/-- A mark that is sized is a delimiter in such a group. -/
def Fitted.IsPlaced (place : Bool) (one : Fitted) : Prop :=
  one.side ≠ none → place ∧ isDelimiter one.mark.char

theorem placed_unfitted (place : Bool) (marked : List Mark) :
    List.Forall₂ Fitted.IsPlaced (marked.map fun _ => place) (unfitted marked) := by
  rw [unfitted, List.forall₂_map_left_iff, List.forall₂_map_right_iff, List.forall₂_same]
  exact fun _ _ hSide => absurd rfl hSide

theorem placed_fit (opened : List Bool) (sides : List (Option Side)) (marked : List Mark) :
    List.Forall₂ Fitted.IsPlaced (marked.map fun _ => true) (fit opened sides marked) := by
  have hAll : ∀ fitted : List Fitted, (∀ one ∈ fitted, one.IsPlaced true) →
      List.Forall₂ Fitted.IsPlaced ((fitted.map Fitted.mark).map fun _ => true) fitted := by
    intro fitted hFitted
    rw [List.map_map, List.forall₂_map_left_iff, List.forall₂_same]
    exact hFitted
  have hPlaced : ∀ one ∈ fit opened sides marked, one.IsPlaced true := by
    intro one hOne hSide
    obtain ⟨side, hSome⟩ := Option.ne_none_iff_exists'.mp hSide
    exact ⟨rfl, (isProper_of_mem_fit one hOne side hSome).1⟩
  have hMarked := hAll _ hPlaced
  rwa [map_mark_fit] at hMarked

theorem forall₂_fitText (pipes : PipeSizing) (text : Text) :
    List.Forall₂ Fitted.IsPlaced (sizedPlaces text) (fitText pipes text) := by
  have hPieces : ∀ passed pieces, List.Forall₂ Fitted.IsPlaced (pieces.flatMap Chunk.places)
      (fitChunks pipes passed pieces) := by
    intro passed pieces
    induction pieces generalizing passed with
    | nil => exact .nil
    | cons chunk rest ih =>
      cases chunk with
      | loose marked => exact List.rel_append (placed_unfitted false marked) (ih passed)
      | group marked =>
        rw [List.flatMap_cons, Chunk.places, fitChunks]
        cases hasFraction marked with
        | true => exact List.rel_append (placed_fit _ _ marked) (ih _)
        | false => exact List.rel_append (placed_unfitted false marked) (ih passed)
  exact hPieces 0 (chunks text)

theorem length_places (chunk : Chunk) : chunk.places.length = chunk.marks.length := by
  cases chunk <;> exact List.length_map _

theorem length_flatMap_places (pieces : List Chunk) :
    (pieces.flatMap Chunk.places).length = (pieces.flatMap Chunk.marks).length := by
  rw [List.length_flatMap, List.length_flatMap]
  exact congrArg List.sum (List.map_congr_left fun chunk _ => length_places chunk)

/-- A sized place of a list of chunks lies in one of them, which is a group around a fraction. -/
theorem exists_of_places {pieces : List Chunk} {n : Nat}
    (h : (pieces.flatMap Chunk.places)[n]? = some true) :
    ∃ earlier later front mark back,
      pieces = earlier ++ .group (front ++ mark :: back) :: later ∧
        hasFraction (front ++ mark :: back) ∧
        n = (earlier.flatMap Chunk.marks ++ front).length := by
  induction pieces generalizing n with
  | nil => cases h
  | cons chunk rest ih =>
    rw [List.flatMap_cons] at h
    by_cases hHere : n < chunk.places.length
    · rw [List.getElem?_append_left hHere] at h
      cases chunk with
      | loose marked => simp [Chunk.places, List.getElem?_eq_some_iff] at h
      | group marked =>
        obtain ⟨hMark, hFraction⟩ : n < marked.length ∧ hasFraction marked := by
          simpa [Chunk.places, List.getElem?_eq_some_iff] using h
        have hSplit : marked.take n ++ marked[n] :: marked.drop (n + 1) = marked := by
          rw [← List.drop_eq_getElem_cons hMark, List.take_append_drop]
        refine ⟨[], rest, marked.take n, marked[n], marked.drop (n + 1), ?_, ?_, ?_⟩
        · rw [hSplit, List.nil_append]
        · rw [hSplit]
          exact hFraction
        · simp [Nat.le_of_lt hMark]
    · rw [List.getElem?_append_right (Nat.le_of_not_lt hHere)] at h
      obtain ⟨earlier, later, front, mark, back, rfl, hFraction, hn⟩ := ih h
      refine ⟨chunk :: earlier, later, front, mark, back, rfl, hFraction, ?_⟩
      rw [length_places] at hHere hn
      rw [List.flatMap_cons, List.append_assoc, List.length_append]
      omega

section Groups

variable {text : Text} {before front back after : List Mark} {mark : Mark}

/-- A sized place lies in a sized group. -/
theorem exists_of_sizedPlaces {n : Nat} (h : (sizedPlaces text)[n]? = some true) :
    ∃ before front mark back after, IsSizedGroup text before (front ++ mark :: back) after ∧
      n = (before ++ front).length := by
  obtain ⟨earlier, later, front, mark, back, hChunks, hFraction, hn⟩ := exists_of_places h
  exact ⟨_, front, mark, back, _, isSizedGroup_of_chunks hChunks hFraction, hn⟩

theorem getElem?_marks (h : IsSizedGroup text before (front ++ mark :: back) after) :
    (marks text)[(before ++ front).length]? = some mark := by
  have hWhole : marks text = (before ++ front) ++ mark :: (back ++ after) := by
    rw [h.whole]
    simp
  rw [hWhole, List.getElem?_append_right (Nat.le_refl _), Nat.sub_self]
  rfl

/-- The places of a text up to a group are those of what stands before it. -/
theorem sizedPlaces_eq {group : List Mark} (h : IsSizedGroup text before group after) :
    sizedPlaces text = (chunksFrom 0 [] before).flatMap Chunk.places ++
      (group.map (fun _ => true) ++ (chunksFrom 0 [] after).flatMap Chunk.places) := by
  rw [sizedPlaces, h.chunks_eq, List.flatMap_append, List.flatMap_cons, Chunk.places, h.fraction]

end Groups

/-! ## Sides within a group -/

/-- For each parenthesis that is open behind a stretch, whether it was sized, given the same before
it. -/
def openedBehind (opened : List Bool) (marked : List Mark) : List Bool :=
  marked.foldl openedAfter opened

/-- The sides of the marks behind a stretch depend on the parentheses that it leaves open and on the
number of its loose pipes. -/
theorem fit_append (opened : List Bool) (sides : List (Option Side)) (front rest : List Mark) :
    fit opened sides (front ++ rest) = fit opened sides front ++
      fit (openedBehind opened front) (sides.drop (front.countP isLoosePipe)) rest := by
  induction front generalizing opened sides with
  | nil => rfl
  | cons mark front ih =>
    rw [List.cons_append, fit_cons, fit_cons, ih, List.cons_append, List.countP_cons]
    split
    · rw [← List.drop_one, List.drop_drop, Nat.add_comm 1]
      rfl
    · rfl

theorem openedBehind_of_depthThrough {above base : List Bool} {behind : Nat} {body : List Mark}
    (h : depthThrough above.length body = some behind) :
    ∃ next, openedBehind (above ++ base) body = next ++ base ∧ next.length = behind := by
  induction body generalizing above with
  | nil => exact ⟨above, rfl, Option.some.inj h⟩
  | cons mark rest ih =>
    rw [openedBehind, List.foldl_cons, openedAfter]
    simp only [depthThrough] at h
    split at h
    · rw [if_pos ‹_›]
      exact @ih (_ :: above) h
    · rw [if_neg ‹_›]
      split at h
      · rw [if_pos ‹_›]
        cases above with
        | nil => cases h
        | cons top above => exact ih h
      · rw [if_neg ‹_›]
        exact ih h

/-- A balanced stretch leaves open what was open before it. -/
theorem openedBehind_balanced {body : List Mark} (h : Balanced body) (opened : List Bool) :
    openedBehind opened body = opened := by
  obtain ⟨next, hNext, hLength⟩ := @openedBehind_of_depthThrough [] opened 0 body h
  rw [List.length_eq_zero_iff.mp hLength] at hNext
  exact hNext

/-! ## The side of a place -/

/-- The side on which the character with this number is sized. -/
def sideAt (pipes : PipeSizing) (text : Text) (n : Nat) : Option Side :=
  (fitText pipes text)[n]?.bind Fitted.side

section Places

variable {pipes : PipeSizing} {text : Text} {before front back after : List Mark} {mark : Mark}

/-- The side of a mark of a sized group, given the marks before it. -/
theorem sideAt_eq (pipes : PipeSizing)
    (h : IsSizedGroup text before (front ++ mark :: back) after) :
    sideAt pipes text (before ++ front).length =
      nextSide (openedBehind [] front)
        ((pipeSides pipes (pipeCount (chunksFrom 0 [] before))
          (pipeDepths 0 (front ++ mark :: back))).drop (front.countP isLoosePipe)) mark := by
  have hBefore : (fitChunks pipes 0 (chunksFrom 0 [] before)).length = before.length := by
    rw [← List.length_map Fitted.mark, map_mark_fitChunks, flatten_chunksFrom]
  have hFront : ∀ sides, (fit [] sides front).length = front.length := by
    intro sides
    rw [← List.length_map Fitted.mark, map_mark_fit]
  rw [sideAt, fitText, h.chunks_eq, fitChunks_append, Nat.zero_add]
  simp only [fitChunks, if_pos h.fraction]
  rw [fit_append, fit_cons, List.append_assoc, ← List.append_assoc, List.getElem?_append_right]
  · simp [hBefore, hFront]
  · simp [hBefore, hFront]

/-- What is sized is a bare delimiter in a sized group. -/
theorem exists_of_sideAt {n : Nat} (h : sideAt pipes text n ≠ none) :
    ∃ before front mark back after, IsSizedGroup text before (front ++ mark :: back) after ∧
      n = (before ++ front).length ∧ isDelimiter mark.char ∧ mark.escaped = false := by
  obtain ⟨side, hSide⟩ := Option.ne_none_iff_exists'.mp h
  obtain ⟨one, hOne, hGiven⟩ := Option.bind_eq_some_iff.mp hSide
  have hPlaced := forall₂_fitText pipes text
  obtain ⟨hLength, hPlaces⟩ := List.forall₂_iff_get.mp hPlaced
  obtain ⟨hFitted, rfl⟩ := List.getElem?_eq_some_iff.mp hOne
  have hPlace : n < (sizedPlaces text).length := hLength ▸ hFitted
  obtain ⟨hSized, hDelimiter⟩ := hPlaces n hPlace hFitted (by simp [hGiven])
  have hTrue : (sizedPlaces text)[n]? = some true := List.getElem?_eq_some_iff.mpr ⟨hPlace, hSized⟩
  obtain ⟨before, front, mark, back, after, hGroup, rfl⟩ := exists_of_sizedPlaces hTrue
  have hMark : (fitText pipes text)[(before ++ front).length].mark = mark := by
    have hMarks := congrArg (fun marked => marked[(before ++ front).length]?)
      (map_mark_fitText pipes text)
    simp only [List.getElem?_map, hOne, Option.map_some] at hMarks
    rw [getElem?_marks hGroup] at hMarks
    exact Option.some.inj hMarks
  have hBare := (isProper_of_mem_fitChunks _ (List.getElem_mem hFitted) side hGiven).2
  exact ⟨before, front, mark, back, after, hGroup, rfl, hMark ▸ hDelimiter, hMark ▸ hBare⟩

end Places

/-! ## Parentheses -/

/-- The sides of the characters of a text, as far as groups and parentheses decide on them. -/
structure SizesParens (text : Text) (side : Nat → Option Side) : Prop where
  /-- Nothing is sized but bare delimiters in sized groups. -/
  placed : ∀ n, side n ≠ none →
    ∃ before front mark back after, IsSizedGroup text before (front ++ mark :: back) after ∧
      n = (before ++ front).length ∧ isDelimiter mark.char ∧ mark.escaped = false
  /-- A parenthesis that opens in a sized group is sized unless it follows `\left`. -/
  opening : ∀ before front mark back after,
    IsSizedGroup text before (front ++ mark :: back) after → mark.isBare '(' →
      side (before ++ front).length = if follows mark "left".toList then none else some .left
  /-- A parenthesis that closes in a sized group closes one of the same group. -/
  partner : ∀ before front mark back after,
    IsSizedGroup text before (front ++ mark :: back) after → mark.isBare ')' →
      ∃ outer opening body, front = outer ++ opening :: body ∧ opening.isBare '(' ∧ Balanced body
  /-- It is sized when the one that it closes is, unless it follows `\right`. -/
  closing : ∀ before outer opening body mark back after,
    IsSizedGroup text before ((outer ++ opening :: body) ++ mark :: back) after →
      opening.isBare '(' → Balanced body → mark.isBare ')' →
        side (before ++ (outer ++ opening :: body)).length =
          if side (before ++ outer).length = some .left ∧ follows mark "right".toList = false then
            some .right
          else none

theorem sizesParens_sideAt (pipes : PipeSizing) (text : Text) :
    SizesParens text (sideAt pipes text) where
  placed _ hSide := exists_of_sideAt hSide
  opening before front mark back after hGroup hOpen := by
    rw [sideAt_eq pipes hGroup, nextSide_of_open hOpen]
  partner before front mark back after hGroup hClose := by
    obtain ⟨depth, hDepth⟩ := hGroup.isGroup.exists_depth_of_close hClose
    obtain ⟨outer, opening, body, hEq, hOpen, -, hBody⟩ := exists_opening hDepth
    exact ⟨outer, opening, body, hEq, hOpen, hBody⟩
  closing before outer opening body mark back after hGroup hOpen hBody hClose := by
    have hOuter : IsSizedGroup text before (outer ++ opening :: (body ++ mark :: back)) after := by
      simpa using hGroup
    have hOpened : openedBehind [] (outer ++ opening :: body) =
        (!follows opening "left".toList) :: openedBehind [] outer := by
      have hAfter : openedAfter (openedBehind [] outer) opening =
          (!follows opening "left".toList) :: openedBehind [] outer := if_pos hOpen
      rw [openedBehind, List.foldl_append, List.foldl_cons]
      exact (openedBehind_balanced hBody _).trans hAfter
    rw [sideAt_eq pipes hGroup, sideAt_eq pipes hOuter, nextSide_of_open hOpen,
      nextSide_of_close hClose, hOpened]
    cases follows opening "left".toList <;> cases follows mark "right".toList <;> rfl

/-- Sizing puts commands before bare delimiters of sized groups and changes nothing else: without
its commands, what it writes is the text. In a sized group every parenthesis that opens gets one
unless it has one, and every other one gets one along with the parenthesis that it closes. -/
theorem size_parens (pipes : PipeSizing) (text : Text) :
    size pipes text = write (fitText pipes text) ∧ bareText (fitText pipes text) = text ∧
      SizesParens text (sideAt pipes text) :=
  ⟨(write_fitText pipes text).symm, bareText_fitText pipes text, sizesParens_sideAt pipes text⟩

end Formulary.Delimiter
