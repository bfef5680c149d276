import Formulary.Proofs.Delimiter.Pipe
import Formulary.Proofs.Markup.Word

/-!
# Sized pipes of finished markup

A pipe is sized when the command of its side, with a backslash that is not escaped, stands directly
before it (`sizedPipes_pos_iff`). The first two stages keep the number of sized pipes: they write no
such command, and change no control word but `\frac` and `\dfrac`. So where only the first pair of
pipes is sized, finishing adds at most one sized pipe of each side (`sizedPipes_finish`).

Sized pipes add up where markup is joined (`sizedPipes_append`), unless the letters of the second
text go on with a command of the first, as those of `ight` do behind `\r`. `IsQuiet` is markup that
brings none in.
-/

namespace Formulary

open Delimiter Formulary.Symbol

variable {side : Side} {lead other : Lead}

/-! ## Reading sized pipes -/

theorem isSizedPipe_iff {mark : Mark} :
    isSizedPipe side mark ↔ mark.char = '|' ∧ mark.lead = .word side.name := by
  simp [isSizedPipe, follows]

theorem sizedPipesFrom_of_not_mem {word : Text} (h : '|' ∉ word) :
    sizedPipesFrom side lead word = 0 := by
  rw [sizedPipesFrom, List.countP_eq_zero]
  intro mark hMark hSized
  have hMem := char_mem_of_mem_marksFrom hMark
  rw [(isSizedPipe_iff.mp hSized).1] at hMem
  exact h hMem

/-- A text has a sized pipe exactly when the command of the side, with a backslash that is not
escaped, stands directly before a pipe. -/
theorem sizedPipes_pos_iff {text : Text} :
    0 < sizedPipes side text ↔
      ∃ before after, text = before ++ side.command ++ '|' :: after ∧
        Lead.plain.through before ≠ .slash := by
  rw [sizedPipes, sizedPipesFrom, List.countP_pos_iff]
  constructor
  · rintro ⟨mark, hMark, hSized⟩
    obtain ⟨hChar, hLead⟩ := isSizedPipe_iff.mp hSized
    obtain ⟨front, after, rfl, hThrough⟩ := mem_marksFrom.mp hMark
    obtain ⟨before, rfl, hBare, -⟩ := through_eq_word.mp (hThrough.symm.trans hLead)
    exact ⟨before, after, by rw [side.command_eq, hChar], hBare⟩
  · rintro ⟨before, after, rfl, hBare⟩
    have hLetters : side.name ≠ [] ∧ side.name.all Char.isAlpha := by cases side <;> decide
    have hName : side.name ≠ [] ∧ ∀ c ∈ side.name, c.isAlpha :=
      ⟨hLetters.1, List.all_eq_true.mp hLetters.2⟩
    refine ⟨⟨.word side.name, '|'⟩, mem_marksFrom.mpr ⟨before ++ side.command, after, rfl, ?_⟩,
      isSizedPipe_iff.mpr ⟨rfl, rfl⟩⟩
    rw [side.command_eq]
    exact (through_eq_word.mpr ⟨before, rfl, hBare, hName⟩).symm

/-! ## Stages -/

/-- Texts that are rewritten with as many sized pipes in front. -/
theorem sizedPipesFrom_prepend {first second rest rest' : Text} (hFirst : '|' ∉ first)
    (hSecond : '|' ∉ second)
    (hRest : sizedPipesFrom side (other.through second) rest' =
      sizedPipesFrom side (lead.through first) rest) :
    sizedPipesFrom side other (second ++ rest') = sizedPipesFrom side lead (first ++ rest) := by
  rw [sizedPipesFrom_append, sizedPipesFrom_append, sizedPipesFrom_of_not_mem hFirst,
    sizedPipesFrom_of_not_mem hSecond, hRest]

theorem Promoted.isSizedPipe {rest : Text} (h : Promoted rest lead other) (side : Side) (c : Char) :
    Delimiter.isSizedPipe side ⟨other, c⟩ = Delimiter.isSizedPipe side ⟨lead, c⟩ := by
  rcases h with rfl | ⟨rfl, rfl, -⟩
  · rfl
  · cases side <;> simp [Delimiter.isSizedPipe, follows, Side.name]

theorem sizedPipesFrom_substitute (side : Side) (display : Bool) {text : Text}
    (h : Promoted text lead other) :
    sizedPipesFrom side other (substitute display text) = sizedPipesFrom side lead text := by
  fun_induction substitute display text generalizing lead other with
  | case1 => rfl
  | case2 rest ih =>
    split
    · rename_i hDisplay
      have hEnds := endsWord_of_wordEnds (Bool.and_eq_true_iff.mp hDisplay).2
      have hLeads := Promoted.through_frac h.after (.inr ⟨rfl, hEnds⟩)
      exact @sizedPipesFrom_prepend side lead other "\\frac".toList "\\dfrac".toList _ _ (by decide)
        (by decide) (ih hLeads)
    · have hLeads : Promoted rest _ _ := Promoted.through_frac h.after (.inl rfl)
      exact @sizedPipesFrom_prepend side lead other "\\frac".toList "\\frac".toList _ _ (by decide)
        (by decide) (ih hLeads)
  | case3 c rest _ ih =>
    cases hCommand : command? c with
    | none =>
      rw [spell_of_none hCommand, List.singleton_append, sizedPipesFrom_cons, sizedPipesFrom_cons,
        h.isSizedPipe, h.after, ih (.inl rfl)]
    | some command =>
      have hAll : ∀ entry ∈ commands, entry.1 ≠ '|' ∧ '|' ∉ entry.2 := by decide
      obtain ⟨hChar, hNone⟩ := hAll _ (mem_of_command? hCommand)
      obtain ⟨hPlain, hThrough⟩ := plain_of_command? hCommand lead other
      have hLeads : lead.through [c] = other.through command := hPlain.trans hThrough.symm
      rw [spell, hCommand, Option.getD_some]
      refine @sizedPipesFrom_prepend side lead other [c] command rest _ ?_ hNone
        (ih (.inl hLeads))
      exact fun hMem => hChar (List.mem_singleton.mp hMem).symm

theorem Shrunken.isSizedPipe (h : Shrunken lead other) (side : Side) (c : Char) :
    Delimiter.isSizedPipe side ⟨other, c⟩ = Delimiter.isSizedPipe side ⟨lead, c⟩ := by
  rcases h with rfl | ⟨letters, rfl, rfl⟩
  · rfl
  · cases side <;> simp [Delimiter.isSizedPipe, follows, Side.name]

theorem Shrunken.sizedPipesFrom_cons (h : Shrunken lead other) {c : Char} {rest rest' : Text}
    (hRest : sizedPipesFrom side (other.after c) rest' = sizedPipesFrom side (lead.after c) rest) :
    sizedPipesFrom side other (c :: rest') = sizedPipesFrom side lead (c :: rest) := by
  rw [Delimiter.sizedPipesFrom_cons, Delimiter.sizedPipesFrom_cons, h.isSizedPipe, hRest]

theorem sizedPipesFrom_shrinkFrom (side : Side) (inside : Bool) {text : Text}
    (h : Shrunken lead other) :
    sizedPipesFrom side other (Script.shrinkFrom inside text) = sizedPipesFrom side lead text := by
  fun_induction Script.shrinkFrom inside text generalizing lead other with
  | case1 => rfl
  | case2 rest ih =>
    exact @sizedPipesFrom_prepend side lead other "\\dfrac".toList "\\frac".toList _ _ (by decide)
      (by decide) (ih h.through_dfrac)
  | case3 c rest _ ih => exact h.sizedPipesFrom_cons (ih (h.after c))
  | case4 c rest _ ih =>
    exact h.sizedPipesFrom_cons ((h.after c).sizedPipesFrom_cons (ih ((h.after c).after _)))
  | case5 c rest _ ih => exact h.sizedPipesFrom_cons (ih (h.after c))
  | case6 c rest _ ih => exact h.sizedPipesFrom_cons (ih (h.after c))

/-- Finishing adds at most one sized pipe of each side, where only the first pair is sized. -/
theorem sizedPipes_finish {settings : Settings} (hPipes : settings.pipeSizing = .firstPair)
    (side : Side) (raw : Text) :
    sizedPipes side (Markup.finish settings raw) ≤ sizedPipes side raw + 1 := by
  have hFinish : Markup.finish settings raw =
      size .firstPair (Script.shrink (substitute settings.displayFractions raw)) := by
    rw [← hPipes]
    rfl
  have hScripts : ∀ text : Text, sizedPipes side (Script.shrink text) = sizedPipes side text :=
    fun text => sizedPipesFrom_shrinkFrom side false (.inl rfl)
  have hGlyphs : sizedPipes side (substitute settings.displayFractions raw) =
      sizedPipes side raw := sizedPipesFrom_substitute side _ (.inl rfl)
  rw [hFinish, sizedPipes_size_firstPair, hScripts, hGlyphs]
  split <;> omega

/-! ## Joined markup -/

/-- No letters that follow make the command of a side. -/
def Lead.IsBlunt : Lead → Prop
  | .plain => True
  | .slash => False
  | .word name => ¬ name <+: Side.left.name ∧ ¬ name <+: Side.right.name

instance : DecidablePred Lead.IsBlunt
  | .plain => .isTrue trivial
  | .slash => .isFalse id
  | .word name =>
    inferInstanceAs (Decidable (¬ name <+: Side.left.name ∧ ¬ name <+: Side.right.name))

theorem keepsLetters_isBlunt : KeepsLetters Lead.IsBlunt where
  plain := trivial
  slash := id
  word c h := h.imp (mt (List.prefix_append _ [c]).trans) (mt (List.prefix_append _ [c]).trans)

theorem Lead.IsBlunt.isSizedPipe (h : lead.IsBlunt) (side : Side) (c : Char) :
    Delimiter.isSizedPipe side ⟨lead, c⟩ = false := by
  rw [Bool.eq_false_iff]
  intro hSized
  obtain rfl := (isSizedPipe_iff.mp hSized).2
  cases side with
  | left => exact h.1 (List.prefix_refl _)
  | right => exact h.2 (List.prefix_refl _)

/-- A text has the same sized pipes behind all blunt leads. -/
theorem sizedPipesFrom_of_isBlunt (h : lead.IsBlunt) (hOther : other.IsBlunt) (text : Text) :
    sizedPipesFrom side lead text = sizedPipesFrom side other text := by
  induction text generalizing lead other with
  | nil => rfl
  | cons c rest ih =>
    rw [sizedPipesFrom_cons, sizedPipesFrom_cons, h.isSizedPipe, hOther.isSizedPipe]
    rcases keepsLetters_isBlunt.after h hOther c with hSame | ⟨hNext, hNextOther⟩
    · rw [hSame]
    · rw [ih hNext hNextOther]

/-- A text ends where no letters make the command of a side. -/
def EndsBlunt (text : Text) : Prop := (Lead.plain.through text).IsBlunt

instance : DecidablePred EndsBlunt :=
  fun text => inferInstanceAs (Decidable (Lead.plain.through text).IsBlunt)

theorem EndsBlunt.append {first second : Text} (hFirst : EndsBlunt first)
    (hSecond : EndsBlunt second) : EndsBlunt (first ++ second) :=
  keepsLetters_isBlunt.append hFirst hSecond

/-- Behind such a text the sized pipes of another one are added to its own. -/
theorem sizedPipes_append {first : Text} (h : EndsBlunt first) (second : Text) :
    sizedPipes side (first ++ second) = sizedPipes side first + sizedPipes side second := by
  have hPlain : Lead.plain.IsBlunt := trivial
  rw [sizedPipes, sizedPipesFrom_append, sizedPipesFrom_of_isBlunt h hPlain]
  rfl

/-- The stages write no fraction at the end of a text as letters that could go on to a command of a
side. -/
theorem EndsBlunt.finish {text : Text} (h : EndsBlunt text) (settings : Settings) :
    EndsBlunt (Markup.finish settings text) := by
  have hKnown : IsVocabulary fun _ => True := ⟨fun _ => trivial, fun _ => trivial⟩
  have hAll : ∀ word ∈ controlWords text, True := fun _ _ => trivial
  have hSame : Promoted text .plain .plain := .inl rfl
  obtain ⟨hGlyphs, hPromoted⟩ :=
    rewords_substitute hKnown settings.displayFractions hSame hAll
  have hStill : Shrunken .plain .plain := .inl rfl
  obtain ⟨-, hShrunken⟩ := rewords_shrinkFrom hKnown false hStill hGlyphs
  have hMiddle : EndsBlunt (substitute settings.displayFractions text) := by
    rcases hPromoted with hFirst | ⟨-, hFirst, -⟩
    · rw [EndsBlunt, ← hFirst]
      exact h
    · rw [EndsBlunt, hFirst]
      decide
  have hFinish : Lead.plain.through (Markup.finish settings text) =
      Lead.plain.through (Script.shrinkFrom false (substitute settings.displayFractions text)) :=
    through_size settings.pipeSizing _
  rw [EndsBlunt, hFinish]
  rcases hShrunken with hSecond | ⟨letters, -, hSecond⟩
  · rw [← hSecond]
    exact hMiddle
  · rw [hSecond]
    constructor <;> rintro ⟨rest, hRest⟩ <;> cases hRest

/-- Markup without sized pipes that makes none with what it is put next to. -/
structure IsQuiet (text : Text) : Prop where
  blunt : EndsBlunt text
  left : sizedPipes .left text = 0
  right : sizedPipes .right text = 0

instance : DecidablePred IsQuiet := fun text =>
  decidable_of_iff (EndsBlunt text ∧ sizedPipes .left text = 0 ∧ sizedPipes .right text = 0)
    ⟨fun ⟨hBlunt, hLeft, hRight⟩ => ⟨hBlunt, hLeft, hRight⟩,
      fun h => ⟨h.blunt, h.left, h.right⟩⟩

namespace IsQuiet

variable {first second : Text}

theorem pipes (h : IsQuiet first) (side : Side) : sizedPipes side first = 0 := by
  cases side with
  | left => exact h.left
  | right => exact h.right

theorem append (hFirst : IsQuiet first) (hSecond : IsQuiet second) : IsQuiet (first ++ second) where
  blunt := hFirst.blunt.append hSecond.blunt
  left := by rw [sizedPipes_append hFirst.blunt, hFirst.left, hSecond.left]
  right := by rw [sizedPipes_append hFirst.blunt, hFirst.right, hSecond.right]

theorem of_not_mem {text : Text} (h : '\\' ∉ text) : IsQuiet text := by
  have hPlain : ∀ side, sizedPipes side text = 0 := by
    intro side
    rw [sizedPipes, sizedPipesFrom, List.countP_eq_zero]
    intro mark hMark hSized
    obtain ⟨front, back, rfl, hLead⟩ := mem_marksFrom.mp hMark
    have hFront : '\\' ∉ front := fun hMem => h (List.mem_append_left _ hMem)
    rw [through_of_not_mem hFront, (isSizedPipe_iff.mp hSized).2] at hLead
    cases hLead
  have hThrough : Lead.plain.through text = .plain := through_of_not_mem h
  refine ⟨?_, hPlain .left, hPlain .right⟩
  rw [EndsBlunt, hThrough]
  trivial

end IsQuiet

end Formulary
