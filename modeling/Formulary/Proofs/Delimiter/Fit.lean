import Formulary.Proofs.Delimiter.Cut

/-!
# Marks and the sides they are given

`Delimiter.resize` writes a group at once. `fit` separates the decision from the writing: it gives
every mark of a group the side on which it is sized here, if any, and `write` puts the sizing
commands into the text. `fitChunks` does so for a whole text. `nextSide` is the decision about one
mark (`fit_cons`), and what follows from it for each mark by itself follows for all of them
(`forall_mem_fitChunks`).

`bareText` is the text of the marks without the commands: `write` differs from it in what is sized
only, and so not at all where there are no delimiters (`write_of_not_delimiter`).

A sizing command ends in a letter and stands before a delimiter, so it changes the reading of no
other character. `marksFrom_write` says what a text reads as with its commands: every mark is as it
was, apart from the lead of the marks that were sized and the marks of the commands themselves.
-/

namespace Formulary.Delimiter

/-- A mark and the side on which it is sized here. -/
structure Fitted where
  mark : Mark
  side : Option Side

/-- The characters that a sizing command may precede. -/
def isDelimiter (c : Char) : Bool := c = '(' || c = ')' || c = '|'

theorem eq_of_isDelimiter {c : Char} (h : isDelimiter c) : c = '(' ∨ c = ')' ∨ c = '|' := by
  simpa [isDelimiter, or_assoc] using h

/-- The name of the sizing command of a side. -/
def Side.name : Side → Text
  | .left => "left".toList
  | .right => "right".toList

theorem Side.command_eq (side : Side) : side.command = '\\' :: side.name := by
  cases side <;> rfl

/-- Give every mark of a group its side. The arguments are those of `resize`. -/
def fit : List Bool → List (Option Side) → List Mark → List Fitted
  | _, _, [] => []
  | opened, sides, mark :: rest =>
    if mark.isBare '(' then
      let fresh := !follows mark "left".toList
      ⟨mark, if fresh then some .left else none⟩ :: fit (fresh :: opened) sides rest
    else if mark.isBare ')' then
      let closes := opened.head?.getD false && !follows mark "right".toList
      ⟨mark, if closes then some .right else none⟩ :: fit opened.tail sides rest
    else if isLoosePipe mark then
      ⟨mark, sides.head?.getD none⟩ :: fit opened sides.tail rest
    else ⟨mark, none⟩ :: fit opened sides rest

/-- Marks that are not sized. -/
def unfitted (marked : List Mark) : List Fitted := marked.map fun mark => ⟨mark, none⟩

/-- Give every mark of a list of chunks its side. The arguments are those of `sizeChunks`. -/
def fitChunks (pipes : PipeSizing) : Nat → List Chunk → List Fitted
  | _, [] => []
  | passed, .loose marked :: rest => unfitted marked ++ fitChunks pipes passed rest
  | passed, .group marked :: rest =>
    if hasFraction marked then
      let depths := pipeDepths 0 marked
      fit [] (pipeSides pipes passed depths) marked ++
        fitChunks pipes (passed + depths.length) rest
    else unfitted marked ++ fitChunks pipes passed rest

/-- The command that is put before a mark. -/
def Fitted.command (fitted : Fitted) : Text := fitted.side.elim [] Side.command

/-- The text of marks with their sizing commands. -/
def write (fitted : List Fitted) : Text :=
  fitted.flatMap fun one => one.command ++ [one.mark.char]

@[simp] theorem write_cons (fitted : Fitted) (rest : List Fitted) :
    write (fitted :: rest) = fitted.command ++ fitted.mark.char :: write rest := by
  simp [write]

@[simp] theorem write_append (first second : List Fitted) :
    write (first ++ second) = write first ++ write second := by
  simp [write]

@[simp] theorem map_mark_unfitted (marked : List Mark) :
    (unfitted marked).map Fitted.mark = marked := by
  simp [unfitted, Function.comp_def]

@[simp] theorem write_unfitted (marked : List Mark) :
    write (unfitted marked) = plainText marked := by
  induction marked with
  | nil => rfl
  | cons mark rest ih => simpa [unfitted, Fitted.command, plainText] using ih

@[simp] theorem mem_unfitted {fitted : Fitted} {marked : List Mark} :
    fitted ∈ unfitted marked ↔ fitted.mark ∈ marked ∧ fitted.side = none := by
  obtain ⟨mark, side⟩ := fitted
  simp only [unfitted, List.mem_map, Fitted.mk.injEq]
  constructor
  · rintro ⟨other, hOther, rfl, rfl⟩
    exact ⟨hOther, rfl⟩
  · rintro ⟨hMark, rfl⟩
    exact ⟨mark, hMark, rfl, rfl⟩

/-! ## One mark after the other -/

/-- For each parenthesis that is open behind a mark, whether it was sized, given the same before
it. -/
def openedAfter (opened : List Bool) (mark : Mark) : List Bool :=
  if mark.isBare '(' then (!follows mark "left".toList) :: opened
  else if mark.isBare ')' then opened.tail
  else opened

/-- The side of the next mark of a group. The arguments are those of `resize`. -/
def nextSide (opened : List Bool) (sides : List (Option Side)) (mark : Mark) : Option Side :=
  if mark.isBare '(' then if follows mark "left".toList then none else some .left
  else if mark.isBare ')' then
    if opened.head?.getD false && !follows mark "right".toList then some .right else none
  else if isLoosePipe mark then sides.head?.getD none
  else none

theorem isBare_of_isLoosePipe {mark : Mark} (h : isLoosePipe mark) : mark.isBare '|' :=
  (Bool.and_eq_true_iff.mp h).1

theorem isLoosePipe_of_isBare {mark : Mark} {c : Char} (h : mark.isBare c) (hc : c ≠ '|') :
    isLoosePipe mark = false := by
  rw [isLoosePipe, isBare_of_ne h hc]
  rfl

/-- Depths are told one mark after the other. -/
theorem pipeDepths_cons (depth : Nat) (mark : Mark) (rest : List Mark) :
    pipeDepths depth (mark :: rest) =
      (if isLoosePipe mark then [depth] else []) ++ pipeDepths (depthAfter depth mark) rest := by
  rw [pipeDepths, depthAfter]
  split
  · rw [isLoosePipe_of_isBare ‹_› (by decide)]
    rfl
  · split
    · rw [isLoosePipe_of_isBare ‹_› (by decide)]
      rfl
    · split <;> rfl

theorem fit_cons (opened : List Bool) (sides : List (Option Side)) (mark : Mark)
    (rest : List Mark) :
    fit opened sides (mark :: rest) = ⟨mark, nextSide opened sides mark⟩ ::
      fit (openedAfter opened mark) (if isLoosePipe mark then sides.tail else sides) rest := by
  simp only [fit, nextSide, openedAfter]
  split
  · rename_i hOpen
    rw [isLoosePipe_of_isBare hOpen (by decide)]
    cases follows mark "left".toList <;> rfl
  · split
    · rename_i hClose
      rw [isLoosePipe_of_isBare hClose (by decide)]
      rfl
    · split <;> rfl

section Next

variable {opened : List Bool} {sides : List (Option Side)} {mark : Mark}

theorem nextSide_of_open (h : mark.isBare '(') :
    nextSide opened sides mark = if follows mark "left".toList then none else some .left :=
  if_pos h

theorem nextSide_of_close (h : mark.isBare ')') : nextSide opened sides mark =
      if opened.head?.getD false && !follows mark "right".toList then some .right else none := by
  have hNotOpen : mark.isBare '(' = false := isBare_of_ne h (by decide)
  rw [nextSide, if_neg (by rw [hNotOpen]; exact Bool.false_ne_true), if_pos h]

theorem nextSide_of_isLoosePipe (h : isLoosePipe mark) :
    nextSide opened sides mark = sides.head?.getD none := by
  have hPipe := isBare_of_isLoosePipe h
  have hNotOpen : mark.isBare '(' = false := isBare_of_ne hPipe (by decide)
  have hNotClose : mark.isBare ')' = false := isBare_of_ne hPipe (by decide)
  simp [nextSide, hNotOpen, hNotClose, h]

theorem nextSide_of_isNeutral (hNeutral : IsNeutral mark) (h : isLoosePipe mark = false) :
    nextSide opened sides mark = none := by
  simp [nextSide, hNeutral.1, hNeutral.2, h]

end Next

/-- What holds of every mark with its next side holds throughout a group. -/
theorem forall_mem_fit {holds : Fitted → Prop}
    (hNext : ∀ opened sides mark, holds ⟨mark, nextSide opened sides mark⟩) {opened : List Bool}
    {sides : List (Option Side)} {marked : List Mark} :
    ∀ fitted ∈ fit opened sides marked, holds fitted := by
  induction marked generalizing opened sides with
  | nil => exact fun _ hMem => absurd hMem List.not_mem_nil
  | cons mark rest ih =>
    rw [fit_cons, List.forall_mem_cons]
    exact ⟨hNext opened sides mark, ih⟩

/-- What also holds of marks that are not sized holds throughout a text. -/
theorem forall_mem_fitChunks {holds : Fitted → Prop} (hNone : ∀ mark, holds ⟨mark, none⟩)
    (hNext : ∀ opened sides mark, holds ⟨mark, nextSide opened sides mark⟩) {pipes : PipeSizing}
    {passed : Nat} {pieces : List Chunk} :
    ∀ fitted ∈ fitChunks pipes passed pieces, holds fitted := by
  have hUnfitted : ∀ {marked : List Mark}, ∀ fitted ∈ unfitted marked, holds fitted := by
    rintro marked ⟨mark, side⟩ hMem
    obtain ⟨-, rfl⟩ := mem_unfitted.mp hMem
    exact hNone mark
  induction pieces generalizing passed with
  | nil => exact fun _ hMem => absurd hMem List.not_mem_nil
  | cons chunk rest ih =>
    cases chunk with
    | loose marked => exact List.forall_mem_append.mpr ⟨hUnfitted, ih⟩
    | group marked =>
      simp only [fitChunks]
      split
      · exact List.forall_mem_append.mpr ⟨forall_mem_fit hNext, ih⟩
      · exact List.forall_mem_append.mpr ⟨hUnfitted, ih⟩

/-! ## The decision and the writing -/

@[simp] theorem map_mark_fit (opened : List Bool) (sides : List (Option Side))
    (marked : List Mark) : (fit opened sides marked).map Fitted.mark = marked := by
  induction marked generalizing opened sides with
  | nil => rfl
  | cons mark rest ih => rw [fit_cons, List.map_cons, ih]

theorem write_fit (opened : List Bool) (sides : List (Option Side)) (marked : List Mark) :
    write (fit opened sides marked) = resize opened sides marked := by
  induction marked generalizing opened sides with
  | nil => rfl
  | cons mark rest ih =>
    simp only [fit, resize]
    split
    · rename_i hOpen
      have hChar : mark.char = '(' := by simp_all [Mark.isBare]
      cases hFresh : follows mark "left".toList <;>
        simp [Fitted.command, ih, sized, hChar]
    · split
      · rename_i hClose
        have hChar : mark.char = ')' := by simp_all [Mark.isBare]
        rw [write_cons, ih]
        split <;> simp [Fitted.command, sized, hChar]
      · split
        · rename_i hPipe
          have hChar : mark.char = '|' := by simp_all [isLoosePipe, Mark.isBare]
          rw [write_cons, ih]
          cases sides.head?.getD none <;> simp [Fitted.command, sized, hChar]
        · simp [Fitted.command, ih]

theorem map_mark_fitChunks (pipes : PipeSizing) (passed : Nat) (pieces : List Chunk) :
    (fitChunks pipes passed pieces).map Fitted.mark = pieces.flatMap Chunk.marks := by
  induction pieces generalizing passed with
  | nil => rfl
  | cons chunk rest ih =>
    cases chunk with
    | loose marked => simp [fitChunks, Chunk.marks, ih]
    | group marked =>
      simp only [fitChunks]
      split <;> simp [Chunk.marks, ih]

theorem write_fitChunks (pipes : PipeSizing) (passed : Nat) (pieces : List Chunk) :
    write (fitChunks pipes passed pieces) = sizeChunks pipes passed pieces := by
  induction pieces generalizing passed with
  | nil => rfl
  | cons chunk rest ih =>
    cases chunk with
    | loose marked => simp [fitChunks, sizeChunks, ih]
    | group marked =>
      simp only [fitChunks, sizeChunks]
      split <;> simp [write_fit, ih]

/-! ## What is sized -/

/-- Only a bare delimiter is sized. -/
def Fitted.IsProper (fitted : Fitted) : Prop :=
  ∀ side, fitted.side = some side →
    isDelimiter fitted.mark.char ∧ fitted.mark.escaped = false

theorem isProper_none (mark : Mark) : Fitted.IsProper ⟨mark, none⟩ := by
  intro side hSide
  cases hSide

theorem isProper_of_isBare {mark : Mark} {c : Char} (h : mark.isBare c) (hc : isDelimiter c)
    (side : Option Side) : Fitted.IsProper ⟨mark, side⟩ := by
  intro _ _
  simp only [Mark.isBare, Bool.and_eq_true, decide_eq_true_eq, Bool.not_eq_true'] at h
  exact ⟨h.1 ▸ hc, h.2⟩

theorem isProper_nextSide (opened : List Bool) (sides : List (Option Side)) (mark : Mark) :
    Fitted.IsProper ⟨mark, nextSide opened sides mark⟩ := by
  rw [nextSide]
  split
  · exact isProper_of_isBare ‹_› rfl _
  · split
    · exact isProper_of_isBare ‹_› rfl _
    · split
      · exact isProper_of_isBare (isBare_of_isLoosePipe ‹_›) rfl _
      · exact isProper_none mark

theorem isProper_of_mem_fit {opened : List Bool} {sides : List (Option Side)} {marked : List Mark} :
    ∀ fitted ∈ fit opened sides marked, fitted.IsProper := forall_mem_fit isProper_nextSide

theorem isProper_of_mem_fitChunks {pipes : PipeSizing} {passed : Nat} {pieces : List Chunk} :
    ∀ fitted ∈ fitChunks pipes passed pieces, fitted.IsProper :=
  forall_mem_fitChunks isProper_none isProper_nextSide

theorem Fitted.IsProper.side_eq_none {fitted : Fitted} (h : fitted.IsProper)
    (hChar : isDelimiter fitted.mark.char = false) : fitted.side = none := by
  cases hSome : fitted.side with
  | none => rfl
  | some side =>
    have hDelimiter := (h side hSome).1
    rw [hChar] at hDelimiter
    cases hDelimiter

/-! ## The text without commands -/

/-- The text of marks without the commands that are put before them. -/
def bareText (fitted : List Fitted) : Text := plainText (fitted.map Fitted.mark)

@[simp] theorem bareText_cons (fitted : Fitted) (rest : List Fitted) :
    bareText (fitted :: rest) = fitted.mark.char :: bareText rest := rfl

theorem exists_of_bareText_append {fitted : List Fitted} {first second : Text}
    (h : bareText fitted = first ++ second) :
    ∃ front back,
      fitted = front ++ back ∧ bareText front = first ∧ bareText back = second := by
  rw [bareText, plainText, List.map_map] at h
  obtain ⟨front, back, rfl, rfl, rfl⟩ := List.map_eq_append_iff.mp h
  exact ⟨front, back, rfl, List.map_map, List.map_map⟩

theorem write_of_side_eq_none {fitted : List Fitted} (h : ∀ one ∈ fitted, one.side = none) :
    write fitted = bareText fitted := by
  induction fitted with
  | nil => rfl
  | cons one rest ih =>
    obtain ⟨hOne, hRest⟩ := List.forall_mem_cons.mp h
    rw [write_cons, ih hRest, Fitted.command, hOne]
    rfl

/-- What has no delimiters is written as it stands. -/
theorem write_of_not_delimiter {fitted : List Fitted} (hProper : ∀ one ∈ fitted, one.IsProper)
    (h : ∀ c ∈ bareText fitted, isDelimiter c = false) : write fitted = bareText fitted := by
  refine write_of_side_eq_none fun one hOne => (hProper one hOne).side_eq_none (h _ ?_)
  exact List.mem_map_of_mem (List.mem_map_of_mem hOne)

/-- A character that is in no command is written only where it stood. -/
theorem mem_write_iff {c : Char} (hc : ∀ side : Side, c ∉ side.command) (fitted : List Fitted) :
    c ∈ write fitted ↔ c ∈ bareText fitted := by
  induction fitted with
  | nil => rfl
  | cons one rest ih =>
    have hCommand : c ∉ one.command := by
      obtain ⟨mark, side⟩ := one
      cases side with
      | none => exact List.not_mem_nil
      | some side => exact hc side
    rw [write_cons, bareText_cons, List.mem_append, List.mem_cons, List.mem_cons, ih]
    exact or_iff_right hCommand

/-! ## Reading what was written -/

/-- The marks of the command that is put before a mark. -/
def Fitted.added (fitted : Fitted) : List Mark := marksFrom fitted.mark.lead fitted.command

/-- A mark behind the command that is put before it. -/
def Fitted.kept : Fitted → Mark
  | ⟨mark, none⟩ => mark
  | ⟨mark, some side⟩ => ⟨.word side.name, mark.char⟩

/-- The marks that a mark becomes. -/
def Fitted.grown (fitted : Fitted) : List Mark := fitted.added ++ [fitted.kept]

@[simp] theorem Fitted.grown_none (mark : Mark) : Fitted.grown ⟨mark, none⟩ = [mark] := rfl

/-- A command that follows no unescaped backslash is read as a control word. -/
theorem through_command {lead : Lead} (h : lead ≠ .slash) (side : Side) :
    lead.through side.command = .word side.name := by
  have hSlash : lead.after '\\' = .slash := by
    cases lead with
    | slash => exact absurd rfl h
    | plain => rfl
    | word name => rfl
  rw [side.command_eq, Lead.through, List.foldl_cons, hSlash]
  cases side <;> rfl

theorem after_delimiter {c : Char} (hc : isDelimiter c) (lead : Lead) : lead.after c = .plain := by
  rcases eq_of_isDelimiter hc with rfl | rfl | rfl <;> cases lead <;> rfl

theorem char_mem_of_mem_marksFrom {lead : Lead} {text : Text} {mark : Mark}
    (h : mark ∈ marksFrom lead text) : mark.char ∈ text := by
  rw [← plainText_marksFrom lead text]
  exact List.mem_map_of_mem h

theorem marksFrom_append (lead : Lead) (first second : Text) :
    marksFrom lead (first ++ second) =
      marksFrom lead first ++ marksFrom (lead.through first) second := by
  induction first generalizing lead with
  | nil => rfl
  | cons c rest ih => simp [marksFrom, Lead.through, ih]

theorem marksFrom_write {lead : Lead} {text : Text} {fitted : List Fitted}
    (hMarks : fitted.map Fitted.mark = marksFrom lead text)
    (hProper : ∀ one ∈ fitted, one.IsProper) :
    marksFrom lead (write fitted) = fitted.flatMap Fitted.grown := by
  induction fitted generalizing lead text with
  | nil => rfl
  | cons first rest ih =>
    obtain ⟨mark, side⟩ := first
    cases text with
    | nil => cases hMarks
    | cons c text =>
      simp only [List.map_cons, marksFrom, List.cons.injEq] at hMarks
      obtain ⟨rfl, hRest⟩ := hMarks
      have hTail := ih hRest fun other hOther => hProper other (List.mem_cons_of_mem _ hOther)
      cases side with
      | none => simp [Fitted.command, marksFrom, hTail]
      | some side =>
        obtain ⟨hDelimiter, hBare⟩ := hProper _ List.mem_cons_self side rfl
        have hLead : lead ≠ .slash := by simpa [Mark.escaped] using hBare
        rw [after_delimiter hDelimiter] at hTail
        rw [write_cons, marksFrom_append]
        simp only [Fitted.command, Option.elim_some, through_command hLead, marksFrom,
          after_delimiter hDelimiter, hTail]
        simp [Fitted.grown, Fitted.added, Fitted.kept, Fitted.command]

/-- What a text is given, all of it: every mark and its side. -/
def fitText (pipes : PipeSizing) (text : Text) : List Fitted := fitChunks pipes 0 (chunks text)

theorem write_fitText (pipes : PipeSizing) (text : Text) :
    write (fitText pipes text) = size pipes text :=
  write_fitChunks pipes 0 (chunks text)

theorem map_mark_fitText (pipes : PipeSizing) (text : Text) :
    (fitText pipes text).map Fitted.mark = marks text := by
  rw [fitText, map_mark_fitChunks, (chunks_cut text).flatten]

theorem bareText_fitText (pipes : PipeSizing) (text : Text) :
    bareText (fitText pipes text) = text := by
  rw [bareText, map_mark_fitText, plainText_marks]

theorem marks_size (pipes : PipeSizing) (text : Text) :
    marks (size pipes text) = (fitText pipes text).flatMap Fitted.grown := by
  rw [← write_fitText]
  exact marksFrom_write (map_mark_fitText pipes text) isProper_of_mem_fitChunks

end Formulary.Delimiter
