import Formulary.Notice
import Mathlib.Data.List.Forall2

/-!
# Outcomes

Two steps that can fail give a result when both do (`exists_of_bind_ok`), and fail with the failure
of the first or, behind its result, of the second (`bind_error`). Another name for the failures
changes no result (`of_mapError_ok`, `exists_of_mapError_error`). A list is checked when each of its
items is (`forM_eq_ok_iff`) and fails with the first one that does (`forM_eq_error_iff`). Runs also
keep their notices (`Run.exists_of_outcome_bind_ok`, `Run.outcome_bind_error`). A list of runs has
all its results exactly when each run has one, and fails with the failure of one of them. Failures
may be renamed step by step (`Run.mapError_bind`, `Run.mapError_mapM`).
-/

namespace Formulary

variable {ε ε' α β : Type}

theorem exists_of_bind_ok {first : Except ε α} {next : α → Except ε β} {result : β}
    (h : first >>= next = .ok result) : ∃ value, first = .ok value ∧ next value = .ok result := by
  cases first with
  | error error => cases h
  | ok value => exact ⟨value, rfl, h⟩

theorem bind_error {first : Except ε α} {next : α → Except ε β} {error : ε}
    (h : first >>= next = .error error) :
    first = .error error ∨ ∃ value, first = .ok value ∧ next value = .error error := by
  cases first with
  | error early =>
    cases h
    exact .inl rfl
  | ok value => exact .inr ⟨value, rfl, h⟩

theorem of_mapError_ok {f : ε → ε'} {result : Except ε α} {value : α}
    (h : result.mapError f = .ok value) : result = .ok value := by
  cases result with
  | error error => cases h
  | ok value =>
    cases h
    rfl

theorem exists_of_mapError_error {f : ε → ε'} {result : Except ε α} {error' : ε'}
    (h : result.mapError f = .error error') :
    ∃ error, result = .error error ∧ error' = f error := by
  cases result with
  | error error =>
    cases h
    exact ⟨error, rfl, rfl⟩
  | ok value => cases h

theorem mapError_bind (f : ε → ε') (first : Except ε α) (next : α → Except ε β) :
    (first >>= next).mapError f = first.mapError f >>= fun value => (next value).mapError f := by
  cases first with
  | error error => rfl
  | ok value => rfl

theorem forM_eq_ok_iff {check : α → Except ε Unit} {items : List α} :
    items.forM check = .ok () ↔ ∀ item ∈ items, check item = .ok () := by
  induction items with
  | nil => exact ⟨fun _ => nofun, fun _ => rfl⟩
  | cons item rest ih =>
    rw [List.forM, List.forall_mem_cons, ← ih]
    constructor
    · intro h
      obtain ⟨⟨⟩, hItem, hRest⟩ := exists_of_bind_ok h
      exact ⟨hItem, hRest⟩
    · rintro ⟨hItem, hRest⟩
      rw [hItem]
      exact hRest

/-- A check of a list fails with its first item that fails. -/
theorem forM_eq_error_iff {check : α → Except ε Unit} {items : List α} {error : ε} :
    items.forM check = .error error ↔ ∃ before item after, items = before ++ item :: after ∧
      (∀ earlier ∈ before, check earlier = .ok ()) ∧ check item = .error error := by
  constructor
  · intro h
    induction items with
    | nil => cases h
    | cons item rest ih =>
      rcases bind_error h with hItem | ⟨⟨⟩, hFine, hLater⟩
      · exact ⟨[], item, rest, rfl, nofun, hItem⟩
      · obtain ⟨before, other, after, rfl, hBefore, hOther⟩ := ih hLater
        exact ⟨item :: before, other, after, rfl, List.forall_mem_cons.mpr ⟨hFine, hBefore⟩, hOther⟩
  · rintro ⟨before, item, after, rfl, hBefore, hItem⟩
    induction before with
    | nil => rw [List.nil_append, List.forM, hItem]; rfl
    | cons earlier before ih =>
      obtain ⟨hEarlier, hRest⟩ := List.forall_mem_cons.mp hBefore
      rw [List.cons_append, List.forM, hEarlier]
      exact ih hRest

theorem exists_of_forM_error {check : α → Except ε Unit} {items : List α} {error : ε}
    (h : items.forM check = .error error) : ∃ item ∈ items, check item = .error error := by
  obtain ⟨before, item, after, rfl, -, hItem⟩ := forM_eq_error_iff.mp h
  exact ⟨item, List.mem_append_right _ List.mem_cons_self, hItem⟩

/-- What the results have that belong to an item, every result has. -/
theorem forall_mem_of_forall₂ {P : α → β → Prop} {Q : β → Prop} {items : List α}
    {results : List β} (h : List.Forall₂ P items results)
    (hQ : ∀ item ∈ items, ∀ result, P item result → Q result) : ∀ result ∈ results, Q result := by
  induction h with
  | nil => exact fun _ hMem => nomatch hMem
  | cons hHead _ ih =>
    intro result hMem
    rcases List.mem_cons.mp hMem with rfl | hRest
    · exact hQ _ List.mem_cons_self _ hHead
    · exact ih (fun item hItem => hQ item (List.mem_cons_of_mem _ hItem)) result hRest

namespace Run

theorem bind_of_ok {run : Run ε α} {value : α} (h : run.outcome = .ok value) (next : α → Run ε β) :
    run >>= next = ⟨run.notices ++ (next value).notices, (next value).outcome⟩ := by
  obtain ⟨notices, outcome⟩ := run
  subst h
  rfl

theorem bind_of_error {run : Run ε α} {error : ε} (h : run.outcome = .error error)
    (next : α → Run ε β) : run >>= next = ⟨run.notices, .error error⟩ := by
  obtain ⟨notices, outcome⟩ := run
  subst h
  rfl

theorem outcome_bind_of_ok {run : Run ε α} {value : α} (h : run.outcome = .ok value)
    (next : α → Run ε β) : (run >>= next).outcome = (next value).outcome := by
  rw [bind_of_ok h]

theorem bind_congr {run : Run ε α} {next other : α → Run ε β}
    (h : ∀ value, run.outcome = .ok value → next value = other value) :
    run >>= next = run >>= other := by
  cases hRun : run.outcome with
  | error error => rw [bind_of_error hRun, bind_of_error hRun]
  | ok value => rw [bind_of_ok hRun, bind_of_ok hRun, h value hRun]

theorem outcome_pure (value : α) : (pure value : Run ε α).outcome = .ok value := rfl

theorem ofExcept_bind_ok (value : α) (next : α → Run ε β) :
    ofExcept (.ok value) >>= next = next value := rfl

theorem exists_of_outcome_bind_ok {run : Run ε α} {next : α → Run ε β} {result : β}
    (h : (run >>= next).outcome = .ok result) :
    ∃ value, run.outcome = .ok value ∧ (next value).outcome = .ok result := by
  cases hRun : run.outcome with
  | error error =>
    rw [bind_of_error hRun] at h
    cases h
  | ok value =>
    rw [outcome_bind_of_ok hRun] at h
    exact ⟨value, rfl, h⟩

theorem outcome_bind_error {run : Run ε α} {next : α → Run ε β} {error : ε}
    (h : (run >>= next).outcome = .error error) :
    run.outcome = .error error ∨
      ∃ value, run.outcome = .ok value ∧ (next value).outcome = .error error := by
  cases hRun : run.outcome with
  | error early =>
    rw [bind_of_error hRun] at h
    cases h
    exact .inl rfl
  | ok value =>
    rw [outcome_bind_of_ok hRun] at h
    exact .inr ⟨value, rfl, h⟩

theorem outcome_mapM {f : α → Run ε β} {nodes : List α} {results : List β}
    (h : List.Forall₂ (fun node result => (f node).outcome = .ok result) nodes results) :
    (nodes.mapM f).outcome = .ok results := by
  induction h with
  | nil => rfl
  | cons hHead _ ih =>
    rw [List.mapM_cons, outcome_bind_of_ok hHead, outcome_bind_of_ok ih, outcome_pure]

/-- What the result of each run has, the results of a list of runs have one by one. -/
theorem forall₂_of_outcome_mapM {f : α → Run ε β} {P : α → β → Prop} {nodes : List α}
    {results : List β} (h : (nodes.mapM f).outcome = .ok results)
    (hP : ∀ node ∈ nodes, ∀ result, (f node).outcome = .ok result → P node result) :
    List.Forall₂ P nodes results := by
  induction nodes generalizing results with
  | nil =>
    cases h
    exact .nil
  | cons node rest ih =>
    rw [List.mapM_cons] at h
    obtain ⟨value, hHead, hBoth⟩ := exists_of_outcome_bind_ok h
    obtain ⟨values, hRest, hResult⟩ := exists_of_outcome_bind_ok hBoth
    cases hResult
    exact .cons (hP node List.mem_cons_self value hHead)
      (ih hRest fun other hOther => hP other (List.mem_cons_of_mem _ hOther))

theorem length_of_outcome_mapM {f : α → Run ε β} {nodes : List α} {results : List β}
    (h : (nodes.mapM f).outcome = .ok results) : results.length = nodes.length :=
  (forall₂_of_outcome_mapM h fun _ _ _ hResult => hResult).length_eq.symm

theorem exists_of_outcome_mapM_error {f : α → Run ε β} {nodes : List α} {error : ε}
    (h : (nodes.mapM f).outcome = .error error) :
    ∃ node ∈ nodes, (f node).outcome = .error error := by
  induction nodes with
  | nil => cases h
  | cons node rest ih =>
    rw [List.mapM_cons] at h
    rcases outcome_bind_error h with hHead | ⟨value, -, hLater⟩
    · exact ⟨node, List.mem_cons_self, hHead⟩
    · rcases outcome_bind_error hLater with hRest | ⟨values, -, hPure⟩
      · obtain ⟨other, hMem, hOther⟩ := ih hRest
        exact ⟨other, List.mem_cons_of_mem _ hMem, hOther⟩
      · cases hPure

/-! ## Renamed failures -/

theorem mapError_bind (f : ε → ε') (run : Run ε α) (next : α → Run ε β) :
    (run >>= next).mapError f = run.mapError f >>= fun value => (next value).mapError f := by
  obtain ⟨notices, outcome⟩ := run
  cases outcome with
  | error error => rfl
  | ok value => rfl

theorem mapError_mapM (f : ε → ε') (items : List α) (next : α → Run ε β) :
    (items.mapM next).mapError f = items.mapM fun item => (next item).mapError f := by
  induction items with
  | nil => rfl
  | cons item rest ih =>
    rw [List.mapM_cons, List.mapM_cons, mapError_bind]
    refine congrArg _ (funext fun value => ?_)
    rw [mapError_bind, ih]
    rfl

end Run

end Formulary
