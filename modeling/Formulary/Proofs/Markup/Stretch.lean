import Formulary.Proofs.Markup.Brace
import Formulary.Proofs.Markup.Fraction
import Mathlib.Data.List.DropRight
import Mathlib.Data.List.Infix

/-!
# The fractions that shrinking reaches

The scan of `shrunk` carries a spot. What a spot remembers of the text before it is whether a script
has been opened in the last stretch without a closing brace (`through_eq_inside_iff`). So the `d`s
that shrinking drops are told from the text alone (`shrink_eq_atPlaces`): those of every `\dfrac`
before which a script is opened in its stretch, provided that the stretch is closed.

* `IsReachedAt.inScript`: where braces are balanced, such a fraction lies within the braces of a
  script, whether or not escaped braces are counted;
* `shrunk_shrunk`: nothing more is reached in what shrinking leaves;
* `shrink_reached`: both, and the text that shrinking writes.
-/

namespace Formulary.Script

open Markup Delimiter

/-! ## Stretches -/

/-- The end of a text behind its last closing brace. -/
def stretch (text : Text) : Text := text.rtakeWhile (· ≠ '\x7d')

/-- A script is opened somewhere in the text. -/
def Opens (text : Text) : Prop := "_\x7b".toList <:+: text ∨ "^\x7b".toList <:+: text

instance : DecidablePred Opens := fun text =>
  inferInstanceAs (Decidable ("_\x7b".toList <:+: text ∨ "^\x7b".toList <:+: text))

/-- At this place stands a `\dfrac` in a stretch that is closed and opens a script before it. -/
structure IsReachedAt (text : Text) (place : Nat) : Prop where
  word : "\\dfrac".toList <+: text.drop place
  opened : Opens (stretch (text.take place))
  closed : '\x7d' ∈ text.drop place

instance (text : Text) (place : Nat) : Decidable (IsReachedAt text place) :=
  decidable_of_iff ("\\dfrac".toList <+: text.drop place ∧ Opens (stretch (text.take place)) ∧
      '\x7d' ∈ text.drop place)
    ⟨fun ⟨hWord, hOpened, hClosed⟩ => ⟨hWord, hOpened, hClosed⟩,
      fun h => ⟨h.word, h.opened, h.closed⟩⟩

/-- The character at this place is the `d` of a fraction that shrinking reaches. -/
def DropsAt (text : Text) : Nat → Prop
  | 0 => False
  | place + 1 => IsReachedAt text place

instance (text : Text) : DecidablePred (DropsAt text)
  | 0 => inferInstanceAs (Decidable False)
  | place + 1 => inferInstanceAs (Decidable (IsReachedAt text place))

theorem isMark_iff {c : Char} : isMark c ↔ c = '_' ∨ c = '^' := by simp [isMark]

theorem opens_iff {text : Text} : Opens text ↔ ∃ mark, isMark mark ∧ [mark, '\x7b'] <:+: text := by
  constructor
  · rintro (hLow | hHigh)
    · exact ⟨'_', rfl, hLow⟩
    · exact ⟨'^', rfl, hHigh⟩
  · rintro ⟨mark, hMark, hInfix⟩
    rcases isMark_iff.mp hMark with rfl | rfl
    · exact .inl hInfix
    · exact .inr hInfix

theorem stretch_concat (text : Text) (c : Char) :
    stretch (text ++ [c]) = if c = '\x7d' then [] else stretch text ++ [c] := by
  rw [stretch, List.rtakeWhile_concat]
  by_cases hClose : c = '\x7d'
  · rw [if_neg (by simp [hClose]), if_pos hClose]
  · rw [if_pos (by simp [hClose]), if_neg hClose]
    rfl

theorem mark_brace_suffix_concat {mark c : Char} {text : Text} :
    [mark, '\x7b'] <:+ text ++ [c] ↔ c = '\x7b' ∧ text.getLast? = some mark := by
  rw [List.suffix_concat_iff, ← List.singleton_suffix_iff_getLast?_eq_some]
  constructor
  · rintro (hNil | ⟨front, hEq, hFront⟩)
    · cases hNil
    · have hSplit : [mark] ++ ['\x7b'] = front ++ [c] := hEq
      obtain ⟨rfl, hLast⟩ := List.append_inj' hSplit rfl
      exact ⟨(List.singleton_inj.mp hLast).symm, hFront⟩
  · rintro ⟨rfl, hFront⟩
    exact .inr ⟨[mark], rfl, hFront⟩

/-- One more character opens a script when it is a brace behind a mark. -/
theorem opens_concat {text : Text} {c : Char} : Opens (text ++ [c]) ↔
    Opens text ∨ c = '\x7b' ∧ text.getLast?.any isMark := by
  simp only [opens_iff, List.infix_concat_iff, mark_brace_suffix_concat, Option.any_eq_true]
  constructor
  · rintro ⟨mark, hMark, ⟨hBrace, hLast⟩ | hInfix⟩
    · exact .inr ⟨hBrace, mark, hLast, hMark⟩
    · exact .inl ⟨mark, hMark, hInfix⟩
  · rintro (⟨mark, hMark, hInfix⟩ | ⟨hBrace, mark, hLast, hMark⟩)
    · exact ⟨mark, hMark, .inr hInfix⟩
    · exact ⟨mark, hMark, .inl ⟨hBrace, hLast⟩⟩

/-! ## What a spot remembers -/

/-- The spot behind a text. -/
def Spot.through (text : Text) : Spot := text.foldl Spot.after .outside

theorem through_concat (text : Text) (c : Char) :
    Spot.through (text ++ [c]) = (Spot.through text).after c := List.foldl_concat ..

/-- The spot behind a text whose last stretch is known. -/
def Spot.ofStretch (last : Text) : Spot :=
  if Opens last then .inside else if last.getLast?.any isMark then .behind else .outside

/-- One more character of a stretch moves the spot. -/
theorem ofStretch_concat {c : Char} (hClose : c ≠ '\x7d') (last : Text) :
    Spot.ofStretch (last ++ [c]) = (Spot.ofStretch last).after c := by
  simp only [Spot.ofStretch, opens_concat, List.getLast?_concat, Option.any_some]
  by_cases hOpens : Opens last
  · simp [hOpens, Spot.after, hClose]
  · by_cases hBehind : last.getLast?.any isMark
    · simp only [hOpens, hBehind, false_or, and_true, if_true, if_false]
      rfl
    · simp only [hOpens, hBehind, Bool.false_eq_true, false_or, and_false, if_false]
      rfl

/-- A spot remembers the last stretch only. -/
theorem through_eq (text : Text) : Spot.through text = Spot.ofStretch (stretch text) := by
  induction text using List.reverseRecOn with
  | nil => rfl
  | append_singleton text c ih =>
    rw [through_concat, ih, stretch_concat]
    by_cases hClose : c = '\x7d'
    · rw [if_pos hClose, hClose]
      cases Spot.ofStretch (stretch text) <;> rfl
    · rw [if_neg hClose, ofStretch_concat hClose]

theorem through_eq_inside_iff {text : Text} :
    Spot.through text = .inside ↔ Opens (stretch text) := by
  rw [through_eq, Spot.ofStretch]
  split
  · simp [*]
  · split <;> simp [*]

/-! ## The fractions that are reached -/

theorem isReachedAt_iff (before : Text) (c : Char) (rest : Text) :
    IsReachedAt (before ++ c :: rest) before.length ↔
      c = '\\' ∧ Spot.through before = .inside ∧ isOpenFraction rest := by
  have hDrop : (before ++ c :: rest).drop before.length = c :: rest := List.drop_left
  have hTake : (before ++ c :: rest).take before.length = before := List.take_left
  have hWord : "\\dfrac".toList <+: c :: rest ↔ '\\' = c ∧ "dfrac".toList.isPrefixOf rest := by
    rw [List.isPrefixOf_iff_prefix]
    exact List.cons_prefix_cons
  rw [through_eq_inside_iff, isOpenFraction, Bool.and_eq_true, decide_eq_true_eq]
  constructor
  · rintro ⟨hFront, hOpened, hClosed⟩
    rw [hDrop] at hFront hClosed
    rw [hTake] at hOpened
    obtain ⟨rfl, hFraction⟩ := hWord.mp hFront
    exact ⟨rfl, hOpened, hFraction, List.mem_of_ne_of_mem (by decide) hClosed⟩
  · rintro ⟨rfl, hOpened, hFraction, hClosed⟩
    exact ⟨hDrop.symm ▸ hWord.mpr ⟨rfl, hFraction⟩, hTake.symm ▸ hOpened,
      hDrop.symm ▸ List.mem_cons_of_mem _ hClosed⟩

/-- What the scan looks at before it drops a character is told by the place. -/
theorem dropsAt_iff (before : Text) (c : Char) (rest : Text) :
    DropsAt (before ++ c :: rest) before.length ↔
      drops (before.getLast? = some '\\') (Spot.through before) (c :: rest) := by
  rcases List.eq_nil_or_concat' before with rfl | ⟨front, slash, rfl⟩
  · exact iff_of_false id Bool.false_ne_true
  · have hText : front ++ [slash] ++ c :: rest = front ++ slash :: c :: rest := by simp
    rw [hText, List.length_append, List.length_singleton]
    change IsReachedAt _ front.length ↔ _
    rw [isReachedAt_iff, List.getLast?_concat, through_concat]
    simp only [drops, Option.some.injEq, Bool.and_eq_true, decide_eq_true_eq, and_assoc]
    refine and_congr_right fun hSlash => and_congr_left fun _ => ?_
    rw [hSlash]
    cases Spot.through front <;> decide

theorem shrink_eq_atPlaces (text : Text) : shrink text =
    Text.atPlaces (fun place c => if DropsAt text place then [] else [c]) text := by
  rw [shrink_eq_shrunk]
  refine @Text.eq_atPlaces
    (fun before rest => shrunk (before.getLast? = some '\\') (Spot.through before) rest) _ text
    (fun _ => rfl) ?_
  rintro before c rest rfl
  simp only [dropsAt_iff]
  rw [List.getLast?_concat, through_concat, shrunk]
  simp only [Option.some.injEq]

/-! ## A second run -/

/-- Nothing is dropped from what the scan leaves. -/
theorem shrunk_shrunk (slash : Bool) (spot : Spot) (text : Text) :
    shrunk slash spot (shrunk slash spot text) = shrunk slash spot text := by
  induction text generalizing slash spot with
  | nil => rfl
  | cons c rest ih =>
    by_cases hDrops : drops slash spot (c :: rest)
    · obtain ⟨rfl, -, after, hText, hGone⟩ := shrunk_of_drops hDrops
      obtain ⟨rfl, rfl⟩ := List.cons.inj hText
      have hTail := ih false .inside
      change shrunk false .inside (shrunk false .inside ('f' :: ("rac".toList ++ after))) =
        shrunk false .inside ('f' :: ("rac".toList ++ after)) at hTail
      rw [shrunk_false_cons .inside 'f' ("rac".toList ++ after)] at hTail
      rw [hGone, shrunk_slash (fun _ => isOpenFraction_cons (by decide) _)]
      exact hTail
    · have hKeeps : drops slash spot (c :: rest) = false := Bool.eq_false_iff.mpr hDrops
      have hStays : drops slash spot (c :: shrunk (c = '\\') (spot.after c) rest) = false := by
        rw [drops, isOpenFraction_shrunk]
        exact hKeeps
      rw [shrunk_cons hKeeps, shrunk_cons hStays, ih]

theorem shrink_shrink (text : Text) : shrink (shrink text) = shrink text := by
  rw [shrink_eq_shrunk (shrink text), shrink_eq_shrunk text, shrunk_shrunk]

/-! ## Scripts with balanced braces -/

/-- At this place stands a `\dfrac` between the braces of a script. These and all braces between
them are closed in the right order, as `read` finds them. -/
def InScript (read : Text → List (Sign Written)) (text : Text) (place : Nat) : Prop :=
  ∃ front mark before after back,
    text = front ++ mark :: (Text.braced (before ++ "\\dfrac".toList ++ after) ++ back) ∧
      isMark mark ∧ place = front.length + 2 + before.length ∧
      IsNested (read (before ++ "\\dfrac".toList ++ after)) ∧
      IsNested (read (Text.braced (before ++ "\\dfrac".toList ++ after)))

/-- A reading of marks finds braces, and every brace that is not escaped. -/
structure ReadsBraces (read : Mark → List (Sign Written)) : Prop where
  eq_or : ∀ mark, read mark = [] ∨ read mark = braceSigns mark.char
  bare : ∀ mark, mark.escaped = false → read mark = braceSigns mark.char

theorem readsBraces_braces : ReadsBraces Mark.braces where
  eq_or mark := by
    rw [Mark.braces]
    split
    · exact .inl rfl
    · exact .inr rfl
  bare mark hBare := by rw [Mark.braces, hBare]; rfl

theorem readsBraces_braceSigns : ReadsBraces fun mark => braceSigns mark.char where
  eq_or _ := .inr rfl
  bare _ _ := rfl

theorem flatMap_braceSigns (text : Text) :
    text.flatMap braceSigns = (marks text).flatMap fun mark => braceSigns mark.char := by
  conv => lhs; rw [← plainText_marks text]
  exact List.flatMap_map _ _ _

variable {read : Mark → List (Sign Written)}

/-- A mark leaves a brace open, or it is the one that closes it. -/
theorem ReadsBraces.nest_mark (hRead : ReadsBraces read) {mark : Mark}
    {top stack between : List Written}
    (h : nest (top ++ .brace :: stack) (read mark) = some between) :
    (∃ above, nest top (read mark) = some above ∧ between = above ++ .brace :: stack) ∨
      top = [] ∧ mark.char = '\x7d' ∧ read mark = [.closing .brace] := by
  rcases hRead.eq_or mark with hNone | hBrace
  · rw [hNone] at h ⊢
    cases h
    exact .inl ⟨top, rfl, rfl⟩
  · rw [hBrace, braceSigns] at h ⊢
    split at h
    · rename_i hOpen
      rw [if_pos hOpen]
      cases h
      exact .inl ⟨.brace :: top, rfl, rfl⟩
    · rename_i hOpen
      rw [if_neg hOpen]
      split at h
      · rename_i hClose
        rw [if_pos hClose]
        obtain ⟨closed, hStep, hNil⟩ := nest_cons_eq_some h
        cases hNil
        have hTop := step_closing_eq_some hStep
        cases top with
        | nil => exact .inr ⟨rfl, hClose, rfl⟩
        | cons first top =>
          obtain ⟨rfl, rfl⟩ := List.cons.inj hTop
          refine .inl ⟨top, ?_, rfl⟩
          rw [nest, step_closing]
          rfl
      · rename_i hClose
        rw [if_neg hClose]
        cases h
        exact .inl ⟨top, rfl, rfl⟩

/-- A brace that is open before a text, and not behind it, is closed in the text. -/
theorem ReadsBraces.exists_of_nest (hRead : ReadsBraces read) {lead : Lead} {text : Text}
    {top stack next : List Written} (hNext : next.length ≤ stack.length)
    (h : nest (top ++ .brace :: stack) ((marksFrom lead text).flatMap read) = some next) :
    ∃ inner back, text = inner ++ '\x7d' :: back ∧
      nest top ((marksFrom lead inner).flatMap read) = some [] ∧
      read ⟨lead.through inner, '\x7d'⟩ = [.closing .brace] := by
  induction text generalizing lead top with
  | nil =>
    cases h
    simp at hNext
    omega
  | cons c rest ih =>
    obtain ⟨between, hMark, hRest⟩ := exists_of_nest_append h
    rcases hRead.nest_mark hMark with ⟨above, hAbove, rfl⟩ | ⟨rfl, rfl, hClose⟩
    · obtain ⟨inner, back, rfl, hInner, hClose⟩ := ih hRest
      refine ⟨c :: inner, back, rfl, ?_, hClose⟩
      rw [marksFrom, List.flatMap_cons, nest_append_of_eq hAbove, hInner]
    · exact ⟨[], rest, rfl, rfl, hClose⟩

/-- Before a fraction that is reached, a script is opened, and no brace closes in between. -/
theorem IsReachedAt.exists_opening {text : Text} {place : Nat} (h : IsReachedAt text place) :
    ∃ front mark before after,
      text = front ++ mark :: '\x7b' :: (before ++ "\\dfrac".toList ++ after) ∧ isMark mark ∧
        place = front.length + 2 + before.length ∧ '\x7d' ∉ before := by
  obtain ⟨earlier, hEarlier⟩ : stretch (text.take place) <:+ text.take place :=
    List.rtakeWhile_suffix _ _
  obtain ⟨mark, hMark, start, before, hStretch⟩ := opens_iff.mp h.opened
  obtain ⟨after, hAfter⟩ := h.word
  have hFront : text.take place = earlier ++ start ++ mark :: '\x7b' :: before := by
    rw [← hEarlier, ← hStretch]
    simp
  have hClear : '\x7d' ∉ before := by
    intro hMem
    have hStays : '\x7d' ∈ stretch (text.take place) := by
      rw [← hStretch]
      exact List.mem_append_right _ hMem
    simpa using List.mem_rtakeWhile_imp hStays
  have hPlace : place ≤ text.length := by
    have hLength := List.length_pos_of_mem h.closed
    rw [List.length_drop] at hLength
    omega
  refine ⟨earlier ++ start, mark, before, after, ?_, hMark, ?_, hClear⟩
  · rw [← List.take_append_drop place text, hFront, ← hAfter]
    simp
  · have hLength := congrArg List.length hFront
    rw [List.length_take, Nat.min_eq_left hPlace] at hLength
    simp only [List.length_append, List.length_cons] at hLength ⊢
    omega

theorem after_mark {mark : Char} (h : isMark mark) (lead : Lead) : lead.after mark = .plain := by
  rcases isMark_iff.mp h with rfl | rfl <;> cases lead <;> rfl

theorem braceSigns_mark {mark : Char} (h : isMark mark) : braceSigns mark = [] := by
  rcases isMark_iff.mp h with rfl | rfl <;> rfl

theorem ReadsBraces.flatMap_braced (hRead : ReadsBraces read) {inner : Text}
    (h : read ⟨Lead.plain.through inner, '\x7d'⟩ = [.closing .brace]) :
    (marks (Text.braced inner)).flatMap read =
      .opening .brace :: ((marks inner).flatMap read ++ [.closing .brace]) := by
  have hOpening : read ⟨.plain, '\x7b'⟩ = [.opening .brace] := hRead.bare _ rfl
  have hLast : (marksFrom (Lead.plain.through inner) ['\x7d']).flatMap read =
      [.closing .brace] := by rw [marksFrom, List.flatMap_cons, h]; rfl
  rw [Text.braced, List.cons_append, marks, marksFrom, List.flatMap_cons, hOpening,
    marksFrom_append, List.flatMap_append]
  exact congrArg (fun closing => .opening .brace :: ((marks inner).flatMap read ++ closing)) hLast

/-- In a text with balanced braces, a fraction that is reached lies in a script. -/
theorem IsReachedAt.inScript (hRead : ReadsBraces read) {text : Text} {place : Nat}
    (h : IsReachedAt text place) (hNested : IsNested ((marks text).flatMap read)) :
    InScript (fun text => (marks text).flatMap read) text place := by
  obtain ⟨front, mark, before, rest, rfl, hMark, rfl, hClear⟩ := h.exists_opening
  have hSilent : read ⟨Lead.plain.through front, mark⟩ = [] := by
    rcases hRead.eq_or ⟨Lead.plain.through front, mark⟩ with hNone | hBrace
    · exact hNone
    · rw [hBrace]
      exact braceSigns_mark hMark
  have hOpening : read ⟨.plain, '\x7b'⟩ = [.opening .brace] := hRead.bare _ rfl
  -- Behind the brace of the script, reading starts anew with that brace open.
  rw [IsNested, marks, marksFrom_append, List.flatMap_append] at hNested
  obtain ⟨stack, -, hBehind⟩ := exists_of_nest_append hNested
  rw [marksFrom, marksFrom, after_mark hMark, List.flatMap_cons, List.flatMap_cons, hSilent,
    hOpening] at hBehind
  have hInside : nest ([] ++ .brace :: stack)
      ((marks (before ++ "\\dfrac".toList ++ rest)).flatMap read) = some [] := hBehind
  obtain ⟨inner, back, hText, hInner, hClosing⟩ := hRead.exists_of_nest (Nat.zero_le _) hInside
  have hWord : '\x7d' ∉ before ++ "\\dfrac".toList := by
    rw [List.mem_append]
    exact not_or.mpr ⟨hClear, by decide⟩
  obtain ⟨after, rfl, rfl⟩ := Text.exists_of_append_cons_eq hWord hText.symm
  refine ⟨front, mark, before, after, back, ?_, hMark, rfl, hInner, ?_⟩
  · simp [Text.braced]
  · change IsNested ((marks (Text.braced (before ++ "\\dfrac".toList ++ after))).flatMap read)
    rw [hRead.flatMap_braced hClosing]
    exact IsNested.between hInner .brace

/-- What shrinking reaches: a `\dfrac` loses its `d` exactly when it is reached, and nothing else
changes. Where braces are balanced, with escaped ones or without, this happens in scripts only. A
second run changes nothing. -/
theorem shrink_reached (text : Text) :
    shrink text = Text.atPlaces (fun place c => if DropsAt text place then [] else [c]) text ∧
    (IsNested (text.flatMap braceSigns) → ∀ place, IsReachedAt text place →
      InScript (fun text => text.flatMap braceSigns) text place) ∧
    (IsNested (braces text) → ∀ place, IsReachedAt text place → InScript braces text place) ∧
    shrink (shrink text) = shrink text := by
  refine ⟨shrink_eq_atPlaces text, fun hNested place hReached => ?_, fun hNested place hReached =>
    hReached.inScript readsBraces_braces hNested, shrink_shrink text⟩
  rw [flatMap_braceSigns] at hNested
  rw [funext flatMap_braceSigns]
  exact hReached.inScript readsBraces_braceSigns hNested

/-- The brace behind the first fraction ends the reach of the script. -/
example : shrink "x^\x7b\\dfrac\x7b1\x7d+\\dfrac2\x7d".toList =
    "x^\x7b\\frac\x7b1\x7d+\\dfrac2\x7d".toList := by decide

end Formulary.Script
