import Formulary.Proofs.Delimiter.Settled
import Formulary.Proofs.Markup.Sign

/-!
# The brackets of sized markup

`brackets` reads finished markup: braces, and the delimiters that `\left` and `\right` size. For
markup in which nothing was sized before they are told mark by mark (`brackets_size`): outside sized
groups they are the braces of the markup, and within one they are its braces, its parentheses and
the pipes that were given a side (`flatMap_brackets_fit`).
-/

namespace Formulary

/-! ## Reading finished markup -/

/-- A bracket of finished markup. -/
inductive Written where
  | brace
  /-- A delimiter behind a sizing command, named by the one that opens. -/
  | sized (delimiter : Char)
  deriving DecidableEq, Repr, Inhabited

/-- The delimiter that opens a pair. -/
def opener : Char → Char
  | ')' => '('
  | ']' => '['
  | c => c

/-- A delimiter behind `\left` or `\right`. -/
def sizedSigns (lead : Lead) (c : Char) : List (Sign Written) :=
  if c.isAlpha then []
  else if lead = .word "left".toList then [.opening (.sized c)]
  else if lead = .word "right".toList then [.closing (.sized (opener c))]
  else []

/-- A brace that is not escaped. -/
def braceSigns (c : Char) : List (Sign Written) :=
  if c = '\x7b' then [.opening .brace] else if c = '\x7d' then [.closing .brace] else []

/-- The brackets of finished markup: braces that are not escaped and sized delimiters. -/
def Mark.brackets (mark : Mark) : List (Sign Written) :=
  if mark.escaped then [] else sizedSigns mark.lead mark.char ++ braceSigns mark.char

/-- The brackets of a finished text. -/
def brackets (text : Text) : List (Sign Written) := (marks text).flatMap Mark.brackets

namespace Delimiter

/-! ## Writing a group -/

/-- Braces as they are, and nothing else. -/
def looseName : Bracket → Option Written
  | .brace => some .brace
  | .paren => none

/-- Braces as they are, and parentheses sized. -/
def sizedName : Bracket → Option Written
  | .brace => some .brace
  | .paren => some (.sized '(')

/-- A pipe on a side. -/
def pipeSigns : Option Side → List (Sign Written)
  | some .left => [.opening (.sized '|')]
  | some .right => [.closing (.sized '|')]
  | none => []

/-- The brackets of a group that is sized, given the signs of its markup and the sides of its
pipes. -/
def sizeSigns : List (Option Side) → List (Sign Bracket) → List (Sign Written)
  | _, [] => []
  | sides, .pipe :: rest => pipeSigns (sides.head?.getD none) ++ sizeSigns sides.tail rest
  | sides, sign :: rest => relabel sizedName [sign] ++ sizeSigns sides rest

/-- The brackets of a mark with its side. -/
def Fitted.brackets : Fitted → List (Sign Written)
  | ⟨mark, none⟩ => relabel looseName mark.signs
  | ⟨mark, some .left⟩ => [.opening (.sized mark.char)]
  | ⟨mark, some .right⟩ => [.closing (.sized (opener mark.char))]

theorem sizeSigns_cons {sign : Sign Bracket} (h : sign ≠ .pipe) (sides : List (Option Side))
    (rest : List (Sign Bracket)) :
    sizeSigns sides (sign :: rest) = relabel sizedName [sign] ++ sizeSigns sides rest := by
  cases sign with
  | pipe => exact absurd rfl h
  | opening bracket => rfl
  | closing bracket => rfl
  | command => rfl

/-- With no side for any pipe, the parentheses are sized and nothing else. -/
theorem sizeSigns_none {sides : List (Option Side)} (h : ∀ side ∈ sides, side = none)
    (word : List (Sign Bracket)) : sizeSigns sides word = relabel sizedName word := by
  induction word generalizing sides with
  | nil => rfl
  | cons sign rest ih =>
    by_cases hPipe : sign = .pipe
    · subst hPipe
      have hHead : sides.head?.getD none = none := by
        cases sides with
        | nil => rfl
        | cons side _ => exact h side List.mem_cons_self
      rw [sizeSigns, hHead, ih fun side hSide => h side (List.mem_of_mem_tail hSide)]
      rfl
    · rw [sizeSigns_cons hPipe, ih h, ← relabel_cons]

theorem sizeSigns_append_singleton (sides : List (Option Side)) (word : List (Sign Bracket))
    (bracket : Bracket) :
    sizeSigns sides (word ++ [.closing bracket]) =
      sizeSigns sides word ++ relabel sizedName [.closing bracket] := by
  induction word generalizing sides with
  | nil => simp [sizeSigns]
  | cons sign rest ih =>
    by_cases hPipe : sign = .pipe
    · subst hPipe
      rw [List.cons_append, sizeSigns, sizeSigns, ih, List.append_assoc]
    · rw [List.cons_append, sizeSigns_cons hPipe, sizeSigns_cons hPipe, ih, List.append_assoc]

/-- Sizing keeps the level of parentheses. -/
theorem level_sizeSigns (sides : List (Option Side)) (word : List (Sign Bracket)) (depth : Nat) :
    level (.sized '(') depth (sizeSigns sides word) = level .paren depth word := by
  have hPipes : ∀ (side : Option Side) (depth : Nat) (rest : List (Sign Written)),
      level (.sized '(') depth (pipeSigns side ++ rest) = level (.sized '(') depth rest := by
    intro side depth rest
    cases side with
    | none => rfl
    | some side => cases side <;> simp [pipeSigns, level]
  induction word generalizing sides depth with
  | nil => rfl
  | cons sign rest ih =>
    by_cases hPipe : sign = .pipe
    · subst hPipe
      rw [sizeSigns, hPipes, ih]
      rfl
    · rw [sizeSigns_cons hPipe]
      cases sign with
      | opening bracket =>
        cases bracket with
        | brace => simpa [relabel, Sign.relabel, sizedName, level] using ih sides depth
        | paren => simpa [relabel, Sign.relabel, sizedName, level] using ih sides (depth + 1)
      | closing bracket =>
        cases bracket with
        | brace => simpa [relabel, Sign.relabel, sizedName, level] using ih sides depth
        | paren =>
          cases depth with
          | zero => simp [relabel, Sign.relabel, sizedName, level]
          | succ outer => simpa [relabel, Sign.relabel, sizedName, level] using ih sides outer
      | pipe => exact absurd rfl hPipe
      | command => exact ih sides depth

/-! ## Marks and their signs -/

/-- The signs of a stretch of marks. -/
def signsOf (marked : List Mark) : List (Sign Bracket) := marked.flatMap Mark.signs

@[simp] theorem signsOf_cons (mark : Mark) (rest : List Mark) :
    signsOf (mark :: rest) = mark.signs ++ signsOf rest := List.flatMap_cons

@[simp] theorem signsOf_append (first second : List Mark) :
    signsOf (first ++ second) = signsOf first ++ signsOf second := List.flatMap_append

section Marks

variable {mark : Mark}

theorem signs_of_open (h : mark.isBare '(') (hLead : mark.lead.isCommand = false) :
    mark.signs = [.opening .paren] := by
  simp only [Mark.isBare, Bool.and_eq_true, decide_eq_true_eq, Bool.not_eq_true'] at h
  obtain ⟨hChar, hBare⟩ := h
  have hPipe : isLoosePipe mark = false := by simp [isLoosePipe, Mark.isBare, hChar]
  rw [Mark.signs, hBare, hLead, hPipe, hChar]
  rfl

theorem signs_of_close (h : mark.isBare ')') (hLead : mark.lead.isCommand = false) :
    mark.signs = [.closing .paren] := by
  simp only [Mark.isBare, Bool.and_eq_true, decide_eq_true_eq, Bool.not_eq_true'] at h
  obtain ⟨hChar, hBare⟩ := h
  have hPipe : isLoosePipe mark = false := by simp [isLoosePipe, Mark.isBare, hChar]
  rw [Mark.signs, hBare, hLead, hPipe, hChar]
  rfl

theorem signs_of_pipe (h : isLoosePipe mark) (hLead : mark.lead.isCommand = false) :
    mark.signs = [.pipe] := by
  have hBare : mark.escaped = false := by
    have hPipe := isBare_of_isLoosePipe h
    simp only [Mark.isBare, Bool.and_eq_true, Bool.not_eq_true'] at hPipe
    exact hPipe.2
  rw [Mark.signs, hBare, hLead, h]
  rfl

/-- A mark that is no parenthesis and no pipe is a brace or has no sign. -/
theorem signs_of_neutral (h : IsNeutral mark) (hPipe : isLoosePipe mark = false)
    (hLead : mark.lead.isCommand = false) :
    mark.signs = [] ∨ mark.signs = [.opening .brace] ∨ mark.signs = [.closing .brace] := by
  obtain ⟨hOpen, hClose⟩ := h
  cases hEscaped : mark.escaped with
  | true => exact .inl (by rw [Mark.signs, hEscaped]; rfl)
  | false =>
    have hNotOpen : mark.char ≠ '(' := by simpa [Mark.isBare, hEscaped] using hOpen
    have hNotClose : mark.char ≠ ')' := by simpa [Mark.isBare, hEscaped] using hClose
    rw [Mark.signs, hEscaped, hLead, hPipe, charSigns, if_neg hNotOpen, if_neg hNotClose]
    by_cases hBrace : mark.char = '\x7b'
    · rw [if_pos hBrace]
      exact .inr (.inl rfl)
    · by_cases hClosed : mark.char = '\x7d'
      · rw [if_neg hBrace, if_pos hClosed]
        exact .inr (.inr rfl)
      · rw [if_neg hBrace, if_neg hClosed]
        exact .inl rfl

theorem isCommand_of_not_mem {text : Text} (h : .command ∉ signs text) :
    ∀ mark ∈ marks text, mark.lead.isCommand = false := by
  intro mark hMark
  by_contra hLead
  rw [Bool.not_eq_false] at hLead
  have hEscaped : mark.escaped = false := by
    cases hEscaped : mark.escaped with
    | false => rfl
    | true =>
      have hSlash : mark.lead = .slash := of_decide_eq_true hEscaped
      rw [hSlash] at hLead
      cases hLead
  refine h (List.mem_flatMap.mpr ⟨mark, hMark, ?_⟩)
  rw [Mark.signs, hEscaped, hLead]
  exact List.mem_cons_self

end Marks

section Stretches

variable {marked : List Mark}

theorem depthThrough_eq_level (hPlain : ∀ mark ∈ marked, mark.lead.isCommand = false)
    (depth : Nat) : depthThrough depth marked = level .paren depth (signsOf marked) := by
  induction marked generalizing depth with
  | nil => rfl
  | cons mark rest ih =>
    have hLead := hPlain mark List.mem_cons_self
    have hRest := ih fun other hOther => hPlain other (List.mem_cons_of_mem _ hOther)
    rw [signsOf_cons, depthThrough.eq_def]
    dsimp only
    split
    · rw [signs_of_open ‹_› hLead, hRest]
      simp [level]
    · rename_i hNotOpen
      split
      · rw [signs_of_close ‹_› hLead]
        cases depth with
        | zero => simp [level]
        | succ outer => simp [level, hRest]
      · rename_i hNotClose
        rw [hRest]
        by_cases hPipe : isLoosePipe mark
        · rw [signs_of_pipe hPipe hLead]
          simp [level]
        · have hNeutral : IsNeutral mark := ⟨by simpa using hNotOpen, by simpa using hNotClose⟩
          rcases signs_of_neutral hNeutral (by simpa using hPipe) hLead with h | h | h <;>
            simp [h, level]

/-- Behind open parentheses that were all sized, a stretch is written with every parenthesis
sized. -/
theorem flatMap_brackets_fit (hPlain : ∀ mark ∈ marked, mark.lead.isCommand = false)
    {depth behind : Nat} (h : depthThrough depth marked = some behind)
    (sides : List (Option Side)) :
    (fit (List.replicate depth true) sides marked).flatMap Fitted.brackets =
      sizeSigns sides (signsOf marked) := by
  induction marked generalizing depth sides with
  | nil => rfl
  | cons mark rest ih =>
    have hLead := hPlain mark List.mem_cons_self
    have hRest : ∀ other ∈ rest, other.lead.isCommand = false :=
      fun other hOther => hPlain other (List.mem_cons_of_mem _ hOther)
    have hNone : follows mark "left".toList = false ∧ follows mark "right".toList = false :=
      Bool.or_eq_false_iff.mp hLead
    rw [signsOf_cons]
    by_cases hOpen : mark.isBare '('
    · have hChar : mark.char = '(' := by simp_all [Mark.isBare]
      have hBehind : depthThrough (depth + 1) rest = some behind := by
        simpa [depthThrough, hOpen] using h
      have hLater := ih hRest hBehind sides
      rw [signs_of_open hOpen hLead]
      simp only [fit, hOpen, if_true, hNone, Bool.not_false, List.flatMap_cons, Fitted.brackets,
        hChar]
      rw [List.replicate_succ] at hLater
      rw [hLater]
      rfl
    · by_cases hClose : mark.isBare ')'
      · have hChar : mark.char = ')' := by simp_all [Mark.isBare]
        cases depth with
        | zero => simp [depthThrough, hOpen, hClose] at h
        | succ outer =>
          have hBehind : depthThrough outer rest = some behind := by
            simpa [depthThrough, hOpen, hClose] using h
          rw [signs_of_close hClose hLead]
          simp only [fit, hOpen, hClose, if_true, hNone, Bool.not_false, List.flatMap_cons,
            Fitted.brackets, hChar, List.replicate_succ, List.head?_cons, Option.getD_some,
            Bool.and_self, List.tail_cons, ih hRest hBehind sides, Bool.false_eq_true, if_false]
          rfl
      · have hBehind : depthThrough depth rest = some behind := by
          simpa [depthThrough, hOpen, hClose] using h
        by_cases hPipe : isLoosePipe mark
        · have hChar : mark.char = '|' := by simp_all [isLoosePipe, Mark.isBare]
          rw [signs_of_pipe hPipe hLead]
          simp only [fit, hOpen, hClose, hPipe, if_true, if_false, Bool.false_eq_true,
            List.flatMap_cons, ih hRest hBehind sides.tail]
          rw [List.singleton_append, sizeSigns]
          congr 1
          cases sides.head?.getD none with
          | none =>
            rw [Fitted.brackets, signs_of_pipe hPipe hLead]
            rfl
          | some side => cases side <;> rw [Fitted.brackets, hChar] <;> rfl
        · have hNeutral : IsNeutral mark := ⟨by simpa using hOpen, by simpa using hClose⟩
          simp only [fit, hOpen, hClose, hPipe, if_false, Bool.false_eq_true, List.flatMap_cons,
            ih hRest hBehind sides]
          rw [Fitted.brackets]
          rcases signs_of_neutral hNeutral (by simpa using hPipe) hLead with h | h | h
          · rw [h]
            rfl
          · rw [h, List.singleton_append, sizeSigns_cons (by decide)]
            rfl
          · rw [h, List.singleton_append, sizeSigns_cons (by decide)]
            rfl

theorem flatMap_brackets_unfitted (marked : List Mark) :
    (unfitted marked).flatMap Fitted.brackets = relabel looseName (signsOf marked) := by
  induction marked with
  | nil => rfl
  | cons mark rest ih =>
    rw [signsOf_cons, relabel_append, ← ih]
    rfl

end Stretches

/-! ## Reading what was written -/

/-- The lead behind a text is the same when some of its delimiters are sized. -/
theorem through_write {lead : Lead} {text : Text} {fitted : List Fitted}
    (hMarks : fitted.map Fitted.mark = marksFrom lead text)
    (hProper : ∀ one ∈ fitted, one.IsProper) : lead.through (write fitted) = lead.through text := by
  induction fitted generalizing lead text with
  | nil =>
    cases text with
    | nil => rfl
    | cons c rest => cases hMarks
  | cons first rest ih =>
    cases text with
    | nil => cases hMarks
    | cons c text =>
      simp only [List.map_cons, marksFrom, List.cons.injEq] at hMarks
      obtain ⟨hMark, hRest⟩ := hMarks
      have hChar : first.mark.char = c := congrArg Mark.char hMark
      have hLater := ih hRest fun other hOther => hProper other (List.mem_cons_of_mem _ hOther)
      have hHere : ((lead.through first.command).after c) = lead.after c := by
        obtain ⟨mark, side⟩ := first
        cases side with
        | none => rfl
        | some side =>
          have hDelimiter := (hProper _ List.mem_cons_self side rfl).1
          rw [show mark.char = c from hChar] at hDelimiter
          rw [after_delimiter hDelimiter, after_delimiter hDelimiter]
      rw [write_cons, through_append, Lead.through, List.foldl_cons, hChar, hHere]
      exact hLater

theorem through_size (pipes : PipeSizing) (text : Text) :
    Lead.plain.through (size pipes text) = Lead.plain.through text := by
  rw [← write_fitText]
  exact through_write (map_mark_fitText pipes text) isProper_of_mem_fitChunks

theorem relabel_charSigns (c : Char) : relabel looseName (charSigns c) = braceSigns c := by
  unfold charSigns braceSigns
  split
  · rfl
  · split
    · rfl
    · split
      · rfl
      · split <;> rfl

/-- Of the signs of a mark, its brace is left when the others are. -/
theorem relabel_signs (mark : Mark) :
    relabel looseName mark.signs = if mark.escaped then [] else braceSigns mark.char := by
  rw [Mark.signs]
  cases mark.escaped with
  | true => rfl
  | false =>
    have hCommand : relabel looseName (if mark.lead.isCommand then [.command] else []) = [] := by
      split <;> rfl
    simp only [Bool.false_eq_true, if_false, relabel_append, hCommand, List.nil_append]
    by_cases hPipe : isLoosePipe mark
    · have hChar : mark.char = '|' := by simp_all [isLoosePipe, Mark.isBare]
      rw [hPipe, hChar]
      rfl
    · rw [if_neg hPipe]
      exact relabel_charSigns mark.char

theorem brackets_eq_relabel {mark : Mark} (hLead : mark.lead.isCommand = false) :
    mark.brackets = relabel looseName mark.signs := by
  have hSized : sizedSigns mark.lead mark.char = [] := by
    obtain ⟨hLeft, hRight⟩ := Bool.or_eq_false_iff.mp hLead
    rw [sizedSigns, if_neg (of_decide_eq_false hLeft), if_neg (of_decide_eq_false hRight), ite_self]
  rw [Mark.brackets, relabel_signs, hSized, List.nil_append]

theorem flatMap_brackets_grown {one : Fitted} (hProper : one.IsProper)
    (hLead : one.mark.lead.isCommand = false) :
    one.grown.flatMap Mark.brackets = one.brackets := by
  obtain ⟨mark, side⟩ := one
  cases side with
  | none =>
    rw [Fitted.grown_none, List.flatMap_singleton]
    exact brackets_eq_relabel hLead
  | some side =>
    obtain ⟨hDelimiter, hBare⟩ := hProper side rfl
    have hSlash : mark.lead.after '\\' = .slash := by
      cases hEq : mark.lead with
      | slash => simp [Mark.escaped, hEq] at hBare
      | plain => rfl
      | word name => rfl
    have hWord : (marksFrom .slash side.name).flatMap Mark.brackets = [] := by
      cases side <;> decide
    have hFirst : Mark.brackets ⟨mark.lead, '\\'⟩ = [] := by
      have hLead : Lead.isCommand (Mark.lead ⟨mark.lead, '\\'⟩) = false := hLead
      have hPipe : isLoosePipe ⟨mark.lead, '\\'⟩ = false := by simp [isLoosePipe, Mark.isBare]
      rw [brackets_eq_relabel hLead, Mark.signs, hLead, hPipe]
      split <;> rfl
    have hAdded : (Fitted.added ⟨mark, some side⟩).flatMap Mark.brackets = [] := by
      change (marksFrom mark.lead side.command).flatMap Mark.brackets = []
      rw [side.command_eq, marksFrom, List.flatMap_cons, hFirst, hSlash, hWord, List.append_nil]
    have hCases : mark.char = '(' ∨ mark.char = ')' ∨ mark.char = '|' :=
      eq_of_isDelimiter hDelimiter
    have hKept : Mark.brackets ⟨.word side.name, mark.char⟩ =
        Fitted.brackets ⟨mark, some side⟩ := by
      rcases hCases with h | h | h <;> cases side <;> simp only [Fitted.brackets, h] <;> rfl
    rw [Fitted.grown, List.flatMap_append, hAdded, List.nil_append, List.flatMap_singleton]
    exact hKept

/-- The brackets of a sized text, mark by mark. -/
theorem brackets_size {text : Text} (hText : .command ∉ signs text) (pipes : PipeSizing) :
    brackets (size pipes text) = (fitText pipes text).flatMap Fitted.brackets := by
  have hPlain := isCommand_of_not_mem hText
  rw [brackets, marks_size, List.flatMap_assoc]
  refine List.flatMap_congr fun one hOne =>
    flatMap_brackets_grown (isProper_of_mem_fitChunks one hOne) ?_
  refine hPlain one.mark ?_
  rw [← map_mark_fitText pipes text]
  exact List.mem_map_of_mem hOne

/-- Math delimiters are escaped, so they have no brackets. -/
theorem brackets_wrap {inner : Text} (h : (Lead.plain.through inner).isQuiet) (style : MathStyle) :
    brackets (Markup.wrap style inner) = brackets inner := by
  have hSlash : Mark.brackets ⟨Lead.plain.through inner, '\\'⟩ = [] := by
    have hPipe : isLoosePipe ⟨Lead.plain.through inner, '\\'⟩ = false := by
      simp [isLoosePipe, Mark.isBare]
    have hSigns := signs_of_isQuiet h '\\'
    rw [brackets_eq_relabel (isCommand_of_isQuiet h), hSigns]
    rfl
  have hEscaped : ∀ c, Mark.brackets ⟨.slash, c⟩ = [] := fun c => rfl
  have hAround : ∀ (first last : Char), (Lead.slash.after first) = .plain →
      brackets (['\\', first] ++ inner ++ ['\\', last]) = brackets inner := by
    intro first last hFirst
    have hBehind : Lead.plain.through (['\\', first] ++ inner) = Lead.plain.through inner := by
      rw [through_append]
      exact congrArg (fun lead => Lead.through lead inner) hFirst
    have hClose : (marksFrom (Lead.plain.through inner) ['\\', last]).flatMap Mark.brackets =
        [] := by
      rw [marksFrom, List.flatMap_cons, hSlash, after_slash_of_isQuiet h]
      rfl
    have hOpen : (marksFrom .plain (['\\', first] ++ inner)).flatMap Mark.brackets =
        brackets inner := by
      change (marksFrom (Lead.slash.after first) inner).flatMap Mark.brackets = _
      rw [hFirst]
      rfl
    rw [brackets, marks, marksFrom_append, List.flatMap_append, hBehind, hClose, hOpen,
      List.append_nil]
  cases style with
  | inline => exact hAround '(' ')' rfl
  | display => exact hAround '[' ']' rfl

end Delimiter

end Formulary
