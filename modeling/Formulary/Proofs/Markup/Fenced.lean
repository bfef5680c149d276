import Formulary.Proofs.Markup.Pair

/-!
# Fenced words

A word is `Fenced` when its pipes come two by two, each two of them around a nested word without
pipes. Such a word stays nested when its pipes are paired (`Fenced.isNested_fences`), since the
pipes of every depth are even in number, before each two and altogether. A group between parentheses
of a fenced word is fenced itself (`Fenced.of_group`), and empty braces may be put in
(`Fenced.of_padded`).
-/

namespace Formulary

/-- Pipes come two by two, around nested words without pipes. -/
inductive Fenced : List (Sign Bracket) → Prop
  | nil : Fenced []
  | other {sign : Sign Bracket} {rest : List (Sign Bracket)} (hSign : sign ≠ .pipe)
    (hRest : Fenced rest) : Fenced (sign :: rest)
  | fence {body rest : List (Sign Bracket)} (hBody : IsNested body) (hPipe : .pipe ∉ body)
    (hRest : Fenced rest) : Fenced (.pipe :: (body ++ .pipe :: rest))

variable {word first second front back : List (Sign Bracket)}

namespace Fenced

theorem of_not_mem (h : .pipe ∉ word) : Fenced word := by
  induction word with
  | nil => exact .nil
  | cons sign rest ih =>
    obtain ⟨hSign, hRest⟩ := not_or.mp (mt List.mem_cons.mpr h)
    exact .other (Ne.symm hSign) (ih hRest)

theorem append (hFirst : Fenced first) (hSecond : Fenced second) : Fenced (first ++ second) := by
  induction hFirst with
  | nil => exact hSecond
  | other hSign _ ih => exact .other hSign ih
  | fence hBody hPipe _ ih =>
    rw [List.cons_append, List.append_assoc, List.cons_append]
    exact .fence hBody hPipe ih

/-! ## Pairing -/

theorem levels_of_ne {sign : Sign Bracket} (h : sign ≠ .pipe) (depth : Nat) :
    sign.levels depth = [] := by
  cases sign with
  | pipe => exact absurd rfl h
  | opening bracket => rfl
  | closing bracket => rfl
  | command => rfl

theorem pipeLevels_of_not_mem (h : .pipe ∉ word) (depth : Nat) : pipeLevels depth word = [] := by
  induction word generalizing depth with
  | nil => rfl
  | cons sign rest ih =>
    obtain ⟨hSign, hRest⟩ := not_or.mp (mt List.mem_cons.mpr h)
    rw [pipeLevels, levels_of_ne (Ne.symm hSign), List.nil_append]
    exact ih hRest _

theorem pipeLevels_fence {body : List (Sign Bracket)} (hBody : IsNested body)
    (hPipe : .pipe ∉ body) (depth : Nat) (rest : List (Sign Bracket)) :
    pipeLevels depth (.pipe :: (body ++ .pipe :: rest)) =
      depth :: depth :: pipeLevels depth rest := by
  have hDepth : depthBehind (Sign.depthBehind depth .pipe) body = depth :=
    hBody.depthBehind_eq depth
  rw [pipeLevels, pipeLevels_append, pipeLevels_of_not_mem hPipe, hDepth]
  rfl

/-- The pipes of a depth are even in number. -/
theorem even_count (h : Fenced word) (depth height : Nat) :
    (pipeLevels depth word).count height % 2 = 0 := by
  induction h generalizing depth with
  | nil => rfl
  | @other sign rest hSign _ ih =>
    rw [pipeLevels, levels_of_ne hSign, List.nil_append]
    exact ih _
  | fence hBody hPipe _ ih =>
    rw [pipeLevels_fence hBody hPipe]
    have hRest := ih depth
    by_cases hSame : depth = height
    · subst hSame
      rw [List.count_cons_self, List.count_cons_self]
      omega
    · rw [List.count_cons_of_ne hSame, List.count_cons_of_ne hSame]
      exact hRest

section Pairing

variable {all passed : List Nat} {stack next : List Bracket}

theorem nest_fences_of_not_mem (hPipe : .pipe ∉ word) (h : nest stack word = some next)
    (depth : Nat) :
    nest (stack.map Fence.plain) (fences all passed depth word) = some (next.map Fence.plain) := by
  induction word generalizing stack passed depth with
  | nil =>
    cases h
    rfl
  | cons sign rest ih =>
    obtain ⟨hSign, hRest⟩ := not_or.mp (mt List.mem_cons.mpr hPipe)
    obtain ⟨between, hStep, hBehind⟩ := nest_cons_eq_some h
    rw [fences, nest, step_fenced (Ne.symm hSign) hStep, Option.bind_some]
    exact ih hRest hBehind _

/-- Two by two, the pipes open and close what they stand around. -/
theorem nest_fences (hWord : Fenced word) (hAll : ∀ height, all.count height % 2 = 0)
    (hPassed : ∀ height, passed.count height % 2 = 0) (h : nest stack word = some next)
    (depth : Nat) :
    nest (stack.map Fence.plain) (fences all passed depth word) = some (next.map Fence.plain) := by
  induction hWord generalizing stack passed depth with
  | nil =>
    cases h
    rfl
  | @other sign rest hSign _ ih =>
    obtain ⟨between, hStep, hBehind⟩ := nest_cons_eq_some h
    rw [fences, nest, step_fenced hSign hStep, Option.bind_some, levels_of_ne hSign]
    exact ih hPassed hBehind _
  | @fence body rest hBody hPipe _ ih =>
    have hBehind : nest stack rest = some next := by
      rw [nest, step, Option.bind_some, nest_append_of_eq (hBody.nest_eq stack)] at h
      exact h
    have hInside : depthBehind depth body = depth := hBody.depthBehind_eq depth
    have hOdd : (depth :: passed).count depth % 2 ≠ 0 := by
      have hEven := hPassed depth
      rw [List.count_cons_self]
      omega
    have hTwice : ∀ height, (depth :: depth :: passed).count height % 2 = 0 := by
      intro height
      have hEven := hPassed height
      by_cases hSame : depth = height
      · subst hSame
        rw [List.count_cons_self, List.count_cons_self]
        omega
      · rw [List.count_cons_of_ne hSame, List.count_cons_of_ne hSame]
        exact hEven
    have hEq : fences all passed depth (.pipe :: (body ++ .pipe :: rest)) =
        .opening (.pipe depth) :: (fences all (depth :: passed) depth body ++
          .closing (.pipe depth) :: fences all (depth :: depth :: passed) depth rest) := by
      rw [fences, fenced_opening (hAll depth) (hPassed depth)]
      simp only [Sign.levels, Sign.depthBehind, List.singleton_append]
      rw [fences_append, fences, hInside, pipeLevels_of_not_mem hPipe, List.reverse_nil,
        List.nil_append, fenced_closing (hAll depth) hOdd]
      rfl
    have hBare : IsNested (fences all (depth :: passed) depth body) :=
      nest_fences_of_not_mem hPipe hBody depth
    rw [hEq, nest, step, Option.bind_some, nest_append_of_eq (hBare.nest_eq _), nest, step_closing,
      Option.bind_some]
    exact ih hTwice hBehind depth

/-- A fenced word stays nested when its pipes are paired. -/
theorem isNested_fences (hWord : Fenced word) (h : IsNested word) :
    IsNested (fences (pipeLevels 0 word) [] 0 word) :=
  hWord.nest_fences (hWord.even_count 0) (fun _ => rfl) h 0

end Pairing

/-! ## Groups -/

/-- Behind a front a fenced word is fenced, unless the front ends within a pair. -/
theorem of_append_right (h : Fenced (front ++ back)) :
    Fenced back ∨ ∃ left right rest, back = right ++ .pipe :: rest ∧ IsNested (left ++ right) ∧
      .pipe ∉ right := by
  generalize hWord : front ++ back = word at h
  induction h generalizing front with
  | nil =>
    obtain ⟨rfl, rfl⟩ := List.append_eq_nil_iff.mp hWord
    exact .inl .nil
  | @other sign rest hSign hRest ih =>
    cases front with
    | nil =>
      rw [List.nil_append] at hWord
      exact .inl (hWord ▸ .other hSign hRest)
    | cons head front => exact ih (List.cons.inj hWord).2
  | @fence body rest hBody hPipe hRest ih =>
    cases front with
    | nil =>
      rw [List.nil_append] at hWord
      exact .inl (hWord ▸ .fence hBody hPipe hRest)
    | cons head front =>
      rcases List.append_eq_append_iff.mp (List.cons.inj hWord).2 with
        ⟨middle, rfl, hBack⟩ | ⟨middle, rfl, hRestEq⟩
      · have hNone : .pipe ∉ middle := fun hMem => hPipe (List.mem_append_right _ hMem)
        exact .inr ⟨front, middle, rest, hBack, hBody, hNone⟩
      · cases middle with
        | nil =>
          refine .inr ⟨body, [], rest, hRestEq.symm, ?_, List.not_mem_nil⟩
          rw [List.append_nil]
          exact hBody
        | cons second middle => exact ih (List.cons.inj hRestEq).2.symm

/-- Before a back a fenced word is fenced, unless the back begins within a pair. -/
theorem of_append_left (h : Fenced (front ++ back)) :
    Fenced front ∨ ∃ outer left right, front = outer ++ .pipe :: left ∧
      IsNested (left ++ right) := by
  generalize hWord : front ++ back = word at h
  induction h generalizing front with
  | nil =>
    obtain ⟨rfl, rfl⟩ := List.append_eq_nil_iff.mp hWord
    exact .inl .nil
  | @other sign rest hSign hRest ih =>
    cases front with
    | nil => exact .inl .nil
    | cons head front =>
      obtain ⟨rfl, hTail⟩ := List.cons.inj hWord
      rcases ih hTail with hFront | ⟨outer, left, right, rfl, hNested⟩
      · exact .inl (.other hSign hFront)
      · exact .inr ⟨head :: outer, left, right, rfl, hNested⟩
  | @fence body rest hBody hPipe hRest ih =>
    cases front with
    | nil => exact .inl .nil
    | cons head front =>
      obtain ⟨rfl, hTail⟩ := List.cons.inj hWord
      rcases List.append_eq_append_iff.mp hTail with ⟨middle, rfl, -⟩ | ⟨middle, rfl, hRestEq⟩
      · exact .inr ⟨[], front, middle, rfl, hBody⟩
      · cases middle with
        | nil =>
          refine .inr ⟨[], body, [], by simp, ?_⟩
          rw [List.append_nil]
          exact hBody
        | cons second middle =>
          obtain ⟨rfl, hMiddle⟩ := List.cons.inj hRestEq
          rcases ih hMiddle.symm with hFront | ⟨outer, left, right, rfl, hNested⟩
          · exact .inl (.fence hBody hPipe hFront)
          · exact .inr ⟨.pipe :: (body ++ .pipe :: outer), left, right, by simp, hNested⟩

/-- A pipe in a group stands between its parentheses. -/
theorem exists_of_group_eq {body outer inner : List (Sign Bracket)}
    (h : .opening .paren :: (body ++ [.closing .paren]) = outer ++ .pipe :: inner) :
    ∃ before after, outer = .opening .paren :: before ∧ inner = after ++ [.closing .paren] ∧
      body = before ++ .pipe :: after := by
  cases outer with
  | nil => cases h
  | cons head before =>
    obtain ⟨rfl, -⟩ := List.cons.inj h
    have hTail : body ++ [.closing .paren] = before ++ .pipe :: inner := (List.cons.inj h).2
    rcases List.eq_nil_or_concat inner with rfl | ⟨after, last, rfl⟩
    · cases (List.append_inj' hTail rfl).2
    · rw [List.concat_eq_append, ← List.cons_append, ← List.append_assoc] at hTail
      obtain ⟨rfl, hLast⟩ := List.append_inj' hTail rfl
      cases hLast
      exact ⟨before, after, rfl, List.concat_eq_append, rfl⟩

/-- A group between parentheses of a fenced word is fenced: a pair around its parenthesis on one
side would be around the one on the other side, too. -/
theorem of_group {body : List (Sign Bracket)} (hBody : IsNested body)
    (h : Fenced (front ++ (.opening .paren :: (body ++ [.closing .paren]) ++ back))) :
    Fenced (.opening .paren :: (body ++ [.closing .paren])) := by
  rcases h.of_append_right with hBack | ⟨left, right, rest, hEq, hNested, hNone⟩
  · rcases hBack.of_append_left with hGroup | ⟨outer, left, right, hEq, hNested⟩
    · exact hGroup
    · exfalso
      obtain ⟨before, after, rfl, rfl, rfl⟩ := exists_of_group_eq hEq
      obtain ⟨opened, -, hPipe⟩ := exists_of_nest_append hBody
      have hAfter : nest opened after = some [] := hPipe
      rw [List.append_assoc] at hNested
      obtain ⟨between, hInner, hClose⟩ := exists_of_nest_append hNested
      obtain ⟨closed, hStep, -⟩ := nest_cons_eq_some hClose
      obtain rfl := step_closing_eq_some hStep
      have hFrame : nest opened after = some (.paren :: closed ++ opened) :=
        nest_frame hInner opened
      cases hFrame.symm.trans hAfter
  · rcases List.append_eq_append_iff.mp hEq with ⟨middle, rfl, -⟩ | ⟨middle, hGroup, hMiddle⟩
    · exact .of_not_mem fun hMem => hNone (List.mem_append_left _ hMem)
    · cases middle with
      | nil =>
        rw [List.append_nil] at hGroup
        exact .of_not_mem (hGroup ▸ hNone)
      | cons head middle =>
        exfalso
        obtain ⟨rfl, -⟩ := List.cons.inj hMiddle
        obtain ⟨before, after, rfl, -, rfl⟩ := exists_of_group_eq hGroup
        obtain ⟨opened, hBefore, -⟩ := exists_of_nest_append hBody
        obtain ⟨outside, -, hRight⟩ := exists_of_nest_append hNested
        have hInner : nest (.paren :: outside) before = some [] := hRight
        have hFrame : nest (.paren :: outside) before = some (opened ++ .paren :: outside) :=
          nest_frame hBefore (.paren :: outside)
        rw [hInner] at hFrame
        exact absurd (Option.some.inj hFrame).symm (by simp)

/-! ## Empty braces -/

/-- Before a sign that was not put in stand empty braces. -/
theorem exists_of_padded_append (h : Padded (first ++ second) word) :
    ∃ first' second', word = first' ++ second' ∧ Padded first first' ∧ Padded second second' := by
  generalize hWord : first ++ second = whole at h
  induction h generalizing first with
  | nil =>
    obtain ⟨rfl, rfl⟩ := List.append_eq_nil_iff.mp hWord
    exact ⟨[], [], rfl, .nil, .nil⟩
  | @cons sign rest rest' hRest ih =>
    cases first with
    | nil =>
      rw [List.nil_append] at hWord
      exact ⟨[], sign :: rest', rfl, .nil, hWord ▸ .cons sign hRest⟩
    | cons head first =>
      obtain ⟨rfl, hTail⟩ := List.cons.inj hWord
      obtain ⟨first', second', rfl, hFirst, hSecond⟩ := ih hTail
      exact ⟨head :: first', second', rfl, .cons head hFirst, hSecond⟩
  | braces _ ih =>
    obtain ⟨first', second', rfl, hFirst, hSecond⟩ := ih hWord
    exact ⟨_ :: _ :: first', second', rfl, .braces hFirst, hSecond⟩

theorem exists_of_padded_cons {sign : Sign Bracket} {rest : List (Sign Bracket)}
    (h : Padded (sign :: rest) word) :
    ∃ braces rest', word = braces ++ sign :: rest' ∧ Padded [] braces ∧ Padded rest rest' := by
  generalize hWord : sign :: rest = whole at h
  induction h with
  | nil => cases hWord
  | @cons other first second hRest =>
    obtain ⟨rfl, rfl⟩ := List.cons.inj hWord
    exact ⟨[], second, rfl, .nil, hRest⟩
  | braces _ ih =>
    obtain ⟨braces, rest', rfl, hBraces, hRest⟩ := ih hWord
    exact ⟨_ :: _ :: braces, rest', rfl, .braces hBraces, hRest⟩

theorem not_mem_of_padded (h : Padded first second) (hPipe : .pipe ∉ first) : .pipe ∉ second :=
  fun hMem => hPipe ((h.mem (by simp)).mp hMem)

theorem of_padded (h : Fenced first) (hPadded : Padded first second) : Fenced second := by
  induction h generalizing second with
  | nil => exact .of_not_mem (not_mem_of_padded hPadded List.not_mem_nil)
  | other hSign _ ih =>
    obtain ⟨braces, rest', rfl, hBraces, hRest⟩ := exists_of_padded_cons hPadded
    have hFront := of_not_mem (not_mem_of_padded hBraces List.not_mem_nil)
    exact hFront.append (.other hSign (ih hRest))
  | @fence body rest hBody hPipe _ ih =>
    obtain ⟨braces, behind, rfl, hBraces, hBehind⟩ := exists_of_padded_cons hPadded
    obtain ⟨body', closing, rfl, hBody', hClosing⟩ := exists_of_padded_append hBehind
    obtain ⟨more, rest', rfl, hMore, hRest⟩ := exists_of_padded_cons hClosing
    have hInside : Padded body (body' ++ more) := by simpa using hBody'.append hMore
    have hNested : IsNested (body' ++ more) := (hInside.nest_eq []).trans hBody
    have hFence := Fenced.fence hNested (not_mem_of_padded hInside hPipe) (ih hRest)
    rw [List.append_assoc] at hFence
    exact (of_not_mem (not_mem_of_padded hBraces List.not_mem_nil)).append hFence

end Fenced

end Formulary
