import Formulary.Proofs.Render.Run
import Formulary.Solution.Report

/-!
# What a report accounts for

Collecting outcomes always gives a report (`outcome_collectFrom`), and the report accounts for each
of them once (`accounts_ofOutcomes`): the failures with their indices, which rise, and the items
without theirs, in order. What became of an index can be read back from the report (`entry?`): it is
listed among the failures, or its item stands behind as many others as there are indices before it
without a failure. A report has taken up as many items as it accounts for, so an item that is
recorded behind them under their number is accounted for in its turn (`exists_accounts_record`).
-/

namespace Formulary.Report

variable {α : Type}

/-- The report on outcomes, the first of which has the given index. -/
def ofOutcomes : Nat → List (Except Failure α) → Report α
  | _, [] => {}
  | index, outcome :: rest => (ofOutcomes (index + 1) rest).add index outcome

/-- The outcome of the item at an index, read back from a report whose indices start at `start`. -/
def entryFrom? (start : Nat) (report : Report α) (index : Nat) : Option (Except Failure α) :=
  match report.failures.lookup index with
  | some failure => some (.error failure)
  | none =>
    let failed := report.failures.countP fun failure => failure.1 < index
    (report.items[index - start - failed]?).map .ok

/-- The outcome of the item at an index, read back from a report. -/
def entry? (report : Report α) (index : Nat) : Option (Except Failure α) :=
  report.entryFrom? 0 index

/-- A report holds outcomes, each of them once: as an item in its turn, or as a failure with its
index. -/
structure Accounts (report : Report α) (outcomes : List (Except Failure α)) : Prop where
  items : report.items = outcomes.filterMap Except.toOption
  failures : ∀ index failure,
    (index, failure) ∈ report.failures ↔ outcomes[index]? = some (.error failure)
  rising : report.failures.Pairwise fun earlier later => earlier.1 < later.1
  total : report.items.length + report.failures.length = outcomes.length
  entries : ∀ index, report.entry? index = outcomes[index]?

/-! ## Collecting -/

@[simp] theorem items_ofOutcomes_ok (index : Nat) (item : α) (rest : List (Except Failure α)) :
    (ofOutcomes index (.ok item :: rest)).items = item :: (ofOutcomes (index + 1) rest).items :=
  rfl

@[simp] theorem failures_ofOutcomes_ok (index : Nat) (item : α)
    (rest : List (Except Failure α)) :
    (ofOutcomes index (.ok item :: rest)).failures = (ofOutcomes (index + 1) rest).failures :=
  rfl

@[simp] theorem items_ofOutcomes_error (index : Nat) (failure : Failure)
    (rest : List (Except Failure α)) :
    (ofOutcomes index (.error failure :: rest)).items = (ofOutcomes (index + 1) rest).items :=
  rfl

@[simp] theorem failures_ofOutcomes_error (index : Nat) (failure : Failure)
    (rest : List (Except Failure α)) :
    (ofOutcomes index (.error failure :: rest)).failures =
      (index, failure) :: (ofOutcomes (index + 1) rest).failures :=
  rfl

/-- Whatever becomes of the items, there is a report on them. -/
theorem outcome_collectFrom {ε : Type} (index : Nat) (runs : List (Run Failure α)) :
    (collectFrom index runs : Run ε (Report α)).outcome =
      .ok (ofOutcomes index (runs.map Run.outcome)) := by
  induction runs generalizing index with
  | nil => rfl
  | cons run rest ih => rw [collectFrom, ih, Except.map, List.map_cons, ofOutcomes]

/-! ## Counting -/

theorem items_ofOutcomes (index : Nat) (outcomes : List (Except Failure α)) :
    (ofOutcomes index outcomes).items = outcomes.filterMap Except.toOption := by
  induction outcomes generalizing index with
  | nil => rfl
  | cons outcome rest ih =>
    cases outcome with
    | ok item =>
      rw [items_ofOutcomes_ok, ih]
      rfl
    | error failure => exact ih (index + 1)

theorem length_ofOutcomes (index : Nat) (outcomes : List (Except Failure α)) :
    (ofOutcomes index outcomes).items.length + (ofOutcomes index outcomes).failures.length =
      outcomes.length := by
  induction outcomes generalizing index with
  | nil => rfl
  | cons outcome rest ih =>
    have hRest := ih (index + 1)
    cases outcome with
    | ok item =>
      rw [items_ofOutcomes_ok, failures_ofOutcomes_ok, List.length_cons, List.length_cons]
      omega
    | error failure =>
      rw [items_ofOutcomes_error, failures_ofOutcomes_error, List.length_cons, List.length_cons]
      omega

/-- The failure of an outcome, with the index of the outcome. -/
def failureAt : Except Failure α × Nat → Option (Nat × Failure)
  | (.ok _, _) => none
  | (.error failure, index) => some (index, failure)

theorem failures_ofOutcomes (index : Nat) (outcomes : List (Except Failure α)) :
    (ofOutcomes index outcomes).failures = (outcomes.zipIdx index).filterMap failureAt := by
  induction outcomes generalizing index with
  | nil => rfl
  | cons outcome rest ih =>
    cases outcome with
    | ok item => exact ih (index + 1)
    | error failure => exact congrArg _ (ih (index + 1))

theorem mem_failures_ofOutcomes {start index : Nat} {failure : Failure}
    {outcomes : List (Except Failure α)} :
    (index, failure) ∈ (ofOutcomes start outcomes).failures ↔
      start ≤ index ∧ outcomes[index - start]? = some (.error failure) := by
  rw [failures_ofOutcomes, List.mem_filterMap]
  constructor
  · rintro ⟨⟨outcome, place⟩, hMem, hFailure⟩
    cases outcome with
    | ok item => cases hFailure
    | error other =>
      cases hFailure
      exact List.mk_mem_zipIdx_iff_le_and_getElem?_sub.mp hMem
  · intro h
    exact ⟨(.error failure, index), List.mk_mem_zipIdx_iff_le_and_getElem?_sub.mpr h, rfl⟩

theorem rising_ofOutcomes (index : Nat) (outcomes : List (Except Failure α)) :
    (ofOutcomes index outcomes).failures.Pairwise fun earlier later => earlier.1 < later.1 := by
  induction outcomes generalizing index with
  | nil => exact .nil
  | cons outcome rest ih =>
    cases outcome with
    | ok item => exact ih (index + 1)
    | error failure =>
      refine List.Pairwise.cons (fun later hLater => ?_) (ih (index + 1))
      exact (mem_failures_ofOutcomes.mp hLater).1

/-! ## Reading back -/

/-- There are no more failures before an index than indices. -/
theorem countP_failures_le (start index : Nat) (outcomes : List (Except Failure α)) :
    ((ofOutcomes start outcomes).failures.countP fun failure => failure.1 < index) ≤
      index - start := by
  induction outcomes generalizing start with
  | nil => exact Nat.zero_le _
  | cons outcome rest ih =>
    have hRest := ih (start + 1)
    cases outcome with
    | ok item =>
      rw [failures_ofOutcomes_ok]
      omega
    | error failure =>
      rw [failures_ofOutcomes_error, List.countP_cons]
      by_cases hLess : start < index
      · rw [if_pos (decide_eq_true hLess)]
        omega
      · rw [if_neg (by simpa using hLess)]
        omega

/-- From an index on, what is read back is what was collected. -/
theorem entryFrom?_ofOutcomes {start index : Nat} (h : start ≤ index)
    (outcomes : List (Except Failure α)) :
    entryFrom? start (ofOutcomes start outcomes) index = outcomes[index - start]? := by
  induction outcomes generalizing start with
  | nil => rfl
  | cons outcome rest ih =>
    have hCount := countP_failures_le (start + 1) index rest
    rcases Nat.eq_or_lt_of_le h with rfl | hMore
    · -- the index is that of the front, and all failures behind have a greater one
      have hNone : (ofOutcomes (start + 1) rest).failures.lookup start = none := by
        refine List.lookup_eq_none_iff.mpr fun failure hMem => ?_
        have hLess := (mem_failures_ofOutcomes.mp hMem).1
        exact bne_iff_ne.mpr (by omega)
      cases outcome with
      | ok item => simp [entryFrom?, hNone]
      | error failure => simp [entryFrom?]
    · have hIndex : index - start = index - (start + 1) + 1 := by omega
      rw [hIndex, List.getElem?_cons_succ, ← ih hMore]
      cases outcome with
      | ok item =>
        simp only [entryFrom?, items_ofOutcomes_ok, failures_ofOutcomes_ok, hIndex]
        rw [Nat.sub_add_comm hCount, List.getElem?_cons_succ]
      | error failure =>
        have hNe : (index == start) = false := beq_false_of_ne (by omega)
        have hLess : decide (start < index) = true := decide_eq_true hMore
        simp only [entryFrom?, items_ofOutcomes_error, failures_ofOutcomes_error, List.lookup_cons,
          hNe, List.countP_cons, hLess, if_true, hIndex, Nat.add_sub_add_right]

theorem accounts_ofOutcomes (outcomes : List (Except Failure α)) :
    (ofOutcomes 0 outcomes).Accounts outcomes where
  items := items_ofOutcomes 0 outcomes
  failures index failure := by
    rw [mem_failures_ofOutcomes]
    simp
  rising := rising_ofOutcomes 0 outcomes
  total := length_ofOutcomes 0 outcomes
  entries index := entryFrom?_ofOutcomes (Nat.zero_le index) outcomes

/-- Collecting gives a report that accounts for every outcome. -/
theorem exists_accounts_collect {ε : Type} (runs : List (Run Failure α)) :
    ∃ report, (collect runs : Run ε (Report α)).outcome = .ok report ∧
      report.Accounts (runs.map Run.outcome) :=
  ⟨_, outcome_collectFrom 0 runs, accounts_ofOutcomes _⟩

/-! ## One more item -/

/-- The report with one more outcome behind all others. -/
def push (index : Nat) (outcome : Except Failure α) (report : Report α) : Report α :=
  match outcome with
  | .ok item => { report with items := report.items ++ [item] }
  | .error failure => { report with failures := report.failures ++ [(index, failure)] }

theorem outcome_record {ε : Type} (index : Nat) (run : Run Failure α) (report : Report α) :
    (record index run report : Run ε (Report α)).outcome =
      .ok (report.push index run.outcome) := by
  rw [record]
  cases run.outcome with
  | ok item => rfl
  | error failure => rfl

theorem push_add (index later : Nat) (outcome other : Except Failure α) (report : Report α) :
    (report.add index outcome).push later other = (report.push later other).add index outcome := by
  cases outcome with
  | ok item => cases other <;> rfl
  | error failure => cases other <;> rfl

theorem push_ofOutcomes (start : Nat) (outcomes : List (Except Failure α))
    (outcome : Except Failure α) :
    (ofOutcomes start outcomes).push (start + outcomes.length) outcome =
      ofOutcomes start (outcomes ++ [outcome]) := by
  induction outcomes generalizing start with
  | nil => cases outcome <;> rfl
  | cons first rest ih =>
    have hIndex : start + (first :: rest).length = start + 1 + rest.length := by
      rw [List.length_cons]
      omega
    rw [ofOutcomes, push_add, hIndex, ih, List.cons_append, ofOutcomes]

/-- An item recorded under the number of those collected before it has its place behind them. -/
theorem exists_accounts_record {ε : Type} (runs : List (Run Failure α)) (last : Run Failure α) :
    ∃ report, (collect runs >>= fun report => record report.size last report :
        Run ε (Report α)).outcome = .ok report ∧
      report.Accounts (runs.map Run.outcome ++ [last.outcome]) := by
  have hCollect : (collect runs : Run ε (Report α)).outcome =
      .ok (ofOutcomes 0 (runs.map Run.outcome)) := outcome_collectFrom 0 runs
  have hSize : (ofOutcomes 0 (runs.map Run.outcome)).size = 0 + (runs.map Run.outcome).length := by
    rw [size, length_ofOutcomes, Nat.zero_add]
  refine ⟨_, ?_, accounts_ofOutcomes _⟩
  rw [Run.outcome_bind_of_ok hCollect, outcome_record, hSize, push_ofOutcomes]

end Formulary.Report
