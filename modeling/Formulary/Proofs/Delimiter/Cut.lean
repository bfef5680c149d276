import Formulary.Markup.Delimiter

/-!
# How marks are cut into groups

`chunks` keeps the open stretch in an accumulator. This module restates its result without one.
`depthThrough` follows the parentheses of a stretch and fails at a parenthesis that the stretch
does not open itself, `IsGroup` is a balanced stretch between two bare parentheses, and `Cut` says
how a list of marks falls apart: loose marks, then a group, then the rest, until no group follows.

* `chunksFrom_eq_of_cut`: the scan finds exactly this cut;
* `chunks_cut`: every text has one;
* `Cut.flatten`: the pieces of a cut, one after the other, are what was cut.
-/

namespace Formulary.Delimiter

theorem isBare_of_ne {mark : Mark} {c d : Char} (h : mark.isBare c) (hNe : c ≠ d) :
    mark.isBare d = false := by
  simp only [Mark.isBare, Bool.and_eq_true, decide_eq_true_eq] at h
  simp [Mark.isBare, h.1, hNe]

/-! ## Depth -/

/-- The mark is neither of the two parentheses. -/
def IsNeutral (mark : Mark) : Prop := mark.isBare '(' = false ∧ mark.isBare ')' = false

/-- The number of parentheses open behind a mark, given the number before it. One that closes
nothing is passed over. -/
def depthAfter (depth : Nat) (mark : Mark) : Nat :=
  if mark.isBare '(' then depth + 1 else if mark.isBare ')' then depth - 1 else depth

/-- The number of parentheses that are open behind a stretch, given the number before it. There is
none when the stretch closes a parenthesis that was not open. -/
def depthThrough : Nat → List Mark → Option Nat
  | depth, [] => some depth
  | depth, mark :: rest =>
    if mark.isBare '(' then depthThrough (depth + 1) rest
    else if mark.isBare ')' then
      match depth with
      | 0 => none
      | outer + 1 => depthThrough outer rest
    else depthThrough depth rest

theorem depthThrough_append (depth : Nat) (first second : List Mark) :
    depthThrough depth (first ++ second) =
      (depthThrough depth first).bind fun between => depthThrough between second := by
  induction first generalizing depth with
  | nil => rfl
  | cons mark rest ih =>
    simp only [List.cons_append, depthThrough]
    split
    · exact ih _
    · split
      · cases depth with
        | zero => rfl
        | succ outer => exact ih outer
      · exact ih depth

theorem depthThrough_neutral {marked : List Mark} (h : ∀ mark ∈ marked, IsNeutral mark)
    (depth : Nat) : depthThrough depth marked = some depth := by
  induction marked with
  | nil => rfl
  | cons mark rest ih =>
    obtain ⟨hOpen, hClose⟩ := h mark List.mem_cons_self
    simp only [depthThrough, hOpen, hClose, Bool.false_eq_true, if_false]
    exact ih fun other hOther => h other (List.mem_cons_of_mem _ hOther)

/-- Parentheses that are open before a stretch stay open behind it. -/
theorem depthThrough_add {depth behind : Nat} {marked : List Mark}
    (h : depthThrough depth marked = some behind) (more : Nat) :
    depthThrough (depth + more) marked = some (behind + more) := by
  induction marked generalizing depth with
  | nil =>
    cases h
    rfl
  | cons mark rest ih =>
    simp only [depthThrough] at h ⊢
    split at h
    · rw [if_pos ‹_›, Nat.add_right_comm]
      exact ih h
    · rw [if_neg ‹_›]
      split at h
      · rw [if_pos ‹_›]
        cases depth with
        | zero => cases h
        | succ outer =>
          rw [Nat.add_right_comm]
          exact ih h
      · rw [if_neg ‹_›]
        exact ih h

/-- A stretch in which every parenthesis has its partner. -/
def Balanced (marked : List Mark) : Prop := depthThrough 0 marked = some 0

theorem Balanced.append {first second : List Mark} (hFirst : Balanced first)
    (hSecond : Balanced second) : Balanced (first ++ second) := by
  rw [Balanced, depthThrough_append, hFirst]
  exact hSecond

/-- A stretch that closes more than was open splits at the first parenthesis that does. -/
theorem exists_closing {depth : Nat} {marked : List Mark} (h : depthThrough depth marked = none) :
    ∃ body closing rest, marked = body ++ closing :: rest ∧ closing.isBare ')' ∧
      depthThrough depth body = some 0 := by
  induction marked generalizing depth with
  | nil => cases h
  | cons mark rest ih =>
    by_cases hOpen : mark.isBare '('
    · obtain ⟨body, closing, after, rfl, hClosing, hBody⟩ :=
        ih (by simpa only [depthThrough, hOpen, if_true] using h)
      exact ⟨mark :: body, closing, after, rfl, hClosing,
        by simpa [depthThrough, hOpen] using hBody⟩
    · by_cases hClose : mark.isBare ')'
      · cases depth with
        | zero => exact ⟨[], mark, rest, rfl, hClose, rfl⟩
        | succ outer =>
          obtain ⟨body, closing, after, rfl, hClosing, hBody⟩ :=
            @ih outer (by simpa [depthThrough, hOpen, hClose] using h)
          exact ⟨mark :: body, closing, after, rfl, hClosing,
            by simpa [depthThrough, hOpen, hClose] using hBody⟩
      · obtain ⟨body, closing, after, rfl, hClosing, hBody⟩ :=
          ih (by simpa [depthThrough, hOpen, hClose] using h)
        exact ⟨mark :: body, closing, after, rfl, hClosing,
          by simpa [depthThrough, hOpen, hClose] using hBody⟩

/-! ## Groups and cuts -/

/-- A balanced stretch between two bare parentheses. -/
def IsGroup (marked : List Mark) : Prop :=
  ∃ opening body closing, marked = opening :: (body ++ [closing]) ∧
    opening.isBare '(' ∧ Balanced body ∧ closing.isBare ')'

theorem IsGroup.balanced {marked : List Mark} (h : IsGroup marked) : Balanced marked := by
  obtain ⟨opening, body, closing, rfl, hOpen, hBody, hClose⟩ := h
  have hNotOpen : closing.isBare '(' = false := isBare_of_ne hClose (by decide)
  have hInner : depthThrough 1 body = some 1 := depthThrough_add hBody 1
  rw [Balanced, depthThrough, if_pos hOpen, depthThrough_append, hInner]
  simp [depthThrough, hNotOpen, hClose]

/-- How marks fall apart into groups and what stands between them. -/
inductive Cut : List Mark → List Chunk → Prop
  /-- No parenthesis opens. -/
  | loose {marked : List Mark} (hLoose : ∀ mark ∈ marked, mark.isBare '(' = false) :
    Cut marked [.loose marked]
  /-- A parenthesis opens and is never closed. -/
  | unclosed {before : List Mark} {opening : Mark} {after : List Mark}
    (hLoose : ∀ mark ∈ before, mark.isBare '(' = false) (hOpen : opening.isBare '(')
    (hAfter : depthThrough 0 after ≠ none) :
    Cut (before ++ opening :: after) [.loose before, .loose (opening :: after)]
  /-- The first parenthesis that opens begins a group. -/
  | group {before group rest : List Mark} {pieces : List Chunk}
    (hLoose : ∀ mark ∈ before, mark.isBare '(' = false) (hGroup : IsGroup group)
    (hRest : Cut rest pieces) :
    Cut (before ++ (group ++ rest)) (.loose before :: .group group :: pieces)

/-- The marks of a chunk. -/
def Chunk.marks : Chunk → List Mark
  | .loose marked => marked
  | .group marked => marked

theorem Cut.flatten {marked : List Mark} {pieces : List Chunk} (h : Cut marked pieces) :
    pieces.flatMap Chunk.marks = marked := by
  induction h with
  | loose _ => simp [Chunk.marks]
  | unclosed _ _ _ => simp [Chunk.marks]
  | group _ _ _ ih => simp [Chunk.marks, ih]

/-! ## The scan -/

theorem chunksFrom_loose {before : List Mark} (h : ∀ mark ∈ before, mark.isBare '(' = false)
    (held rest : List Mark) :
    chunksFrom 0 held (before ++ rest) = chunksFrom 0 (before.reverse ++ held) rest := by
  induction before generalizing held with
  | nil => rfl
  | cons mark before ih =>
    have hMark : mark.isBare '(' = false := h mark List.mem_cons_self
    simp only [List.cons_append, chunksFrom, hMark, Bool.false_eq_true, if_false]
    rw [ih (fun other hOther => h other (List.mem_cons_of_mem _ hOther))]
    simp

/-- Within a group, a stretch that closes only what it opens joins the held marks as a whole. -/
theorem chunksFrom_through {body : List Mark} {depth behind : Nat}
    (h : depthThrough depth body = some behind) (held rest : List Mark) :
    chunksFrom (depth + 1) held (body ++ rest) =
      chunksFrom (behind + 1) (body.reverse ++ held) rest := by
  induction body generalizing depth held with
  | nil =>
    cases h
    rfl
  | cons mark body ih =>
    by_cases hOpen : mark.isBare '('
    · have hBody : depthThrough (depth + 1) body = some behind := by
        simpa [depthThrough, hOpen] using h
      simp only [List.cons_append, chunksFrom, hOpen, if_true]
      rw [ih hBody]
      simp
    · by_cases hClose : mark.isBare ')'
      · cases depth with
        | zero => simp [depthThrough, hOpen, hClose] at h
        | succ outer =>
          have hBody : depthThrough outer body = some behind := by
            simpa [depthThrough, hOpen, hClose] using h
          have hOuter : outer + 1 ≠ 0 := by omega
          simp only [List.cons_append, chunksFrom, hOpen, hClose, hOuter, if_true, if_false,
            Bool.false_eq_true]
          rw [ih hBody]
          simp
      · have hBody : depthThrough depth body = some behind := by
          simpa [depthThrough, hOpen, hClose] using h
        simp only [List.cons_append, chunksFrom, hOpen, hClose, if_false, Bool.false_eq_true]
        rw [ih hBody]
        simp

theorem chunksFrom_eq_of_cut {marked : List Mark} {pieces : List Chunk} (h : Cut marked pieces) :
    chunksFrom 0 [] marked = pieces := by
  induction h with
  | @loose marked hLoose =>
    have hScan := chunksFrom_loose hLoose [] []
    simpa [chunksFrom] using hScan
  | @unclosed before opening after hLoose hOpen hAfter =>
    obtain ⟨behind, hBehind⟩ := Option.ne_none_iff_exists'.mp hAfter
    have hScan := chunksFrom_through hBehind [opening] []
    rw [chunksFrom_loose hLoose]
    simpa [chunksFrom, hOpen] using hScan
  | @group before group rest pieces hLoose hGroup _ ih =>
    obtain ⟨opening, body, closing, rfl, hOpen, hBody, hClose⟩ := hGroup
    have hNotOpen : closing.isBare '(' = false := isBare_of_ne hClose (by decide)
    rw [chunksFrom_loose hLoose]
    simp only [List.cons_append, List.append_assoc, List.nil_append, chunksFrom, hOpen, if_true]
    rw [chunksFrom_through hBody]
    simp [chunksFrom, hNotOpen, hClose, ih]

theorem exists_cut (marked : List Mark) : ∃ pieces, Cut marked pieces := by
  generalize hLength : marked.length = bound
  induction bound using Nat.strongRecOn generalizing marked with
  | ind bound ih =>
    by_cases hAny : ∃ mark ∈ marked, mark.isBare '('
    · -- split at the first parenthesis that opens
      obtain ⟨before, opening, after, hLoose, hOpen, rfl⟩ :
          ∃ before opening after, (∀ mark ∈ before, mark.isBare '(' = false) ∧
            opening.isBare '(' = true ∧ marked = before ++ opening :: after := by
        have hSome : (marked.find? fun mark => mark.isBare '(').isSome := by
          simpa [List.find?_isSome] using hAny
        obtain ⟨opening, hFind⟩ := Option.isSome_iff_exists.mp hSome
        obtain ⟨hOpen, before, after, rfl, hBefore⟩ := List.find?_eq_some_iff_append.mp hFind
        exact ⟨before, opening, after, fun mark hMark => by simpa using hBefore mark hMark,
          hOpen, rfl⟩
      by_cases hClosed : depthThrough 0 after = none
      · obtain ⟨body, closing, rest, rfl, hClose, hBody⟩ := exists_closing hClosed
        obtain ⟨pieces, hRest⟩ := ih rest.length (by simp at hLength; omega) rest rfl
        have hGroup : IsGroup (opening :: (body ++ [closing])) :=
          ⟨opening, body, closing, rfl, hOpen, hBody, hClose⟩
        exact ⟨_, by simpa using Cut.group hLoose hGroup hRest⟩
      · exact ⟨_, .unclosed hLoose hOpen hClosed⟩
    · exact ⟨_, .loose fun mark hMark => by
        simpa using fun hOpen => hAny ⟨mark, hMark, hOpen⟩⟩

theorem chunks_cut (text : Text) : Cut (marks text) (chunks text) := by
  obtain ⟨pieces, hCut⟩ := exists_cut (marks text)
  have hScan : chunks text = pieces := chunksFrom_eq_of_cut hCut
  exact hScan ▸ hCut

end Formulary.Delimiter
