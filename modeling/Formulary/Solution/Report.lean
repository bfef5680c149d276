import Formulary.Json.Printer
import Formulary.Notice

/-!
# Reports

The items of a solution are rendered independently. A `Report` holds those that succeeded, in
order, and the failures of the others, each with the index of its item.
-/

namespace Formulary

/-- The results of independent items. -/
structure Report (α : Type) where
  items : List α := []
  failures : List (Nat × Failure) := []
  deriving DecidableEq, Repr, Inhabited

namespace Report

variable {α : Type}

/-- Every item succeeded. -/
def isComplete (report : Report α) : Bool := report.failures.isEmpty

/-- Put the outcome of the item at an index before the outcomes of the items behind it. -/
def add (index : Nat) (outcome : Except Failure α) (report : Report α) : Report α :=
  match outcome with
  | .ok item => { report with items := item :: report.items }
  | .error failure => { report with failures := (index, failure) :: report.failures }

/-- Collect the outcomes of items, the first at an index, with a notice for each that fails. -/
def collectFrom {ε : Type} : Nat → List (Run Failure α) → Run ε (Report α)
  | _, [] => .ok {}
  | index, run :: rest =>
    let told := match run.outcome with
      | .ok _ => run.notices
      | .error failure => run.notices ++ [.itemFailed index failure]
    let others := collectFrom index.succ rest
    ⟨told ++ others.notices, others.outcome.map (add index run.outcome)⟩

/-- Collect the outcomes of items. -/
def collect {ε : Type} (runs : List (Run Failure α)) : Run ε (Report α) := collectFrom 0 runs

/-- How many items a report has taken up so far. -/
def size (report : Report α) : Nat := report.items.length + report.failures.length

/-- Take up the outcome of one more item behind all others, with a notice if it fails. -/
def record {ε : Type} (index : Nat) (run : Run Failure α) (report : Report α) :
    Run ε (Report α) :=
  match run.outcome with
  | .ok item => ⟨run.notices, .ok { report with items := report.items ++ [item] }⟩
  | .error failure =>
    ⟨run.notices ++ [.itemFailed index failure],
      .ok { report with failures := report.failures ++ [(index, failure)] }⟩

/-- The JSON text of a failure. -/
def printFailure (failure : Nat × Failure) : Text :=
  Json.printObject [("index".toList, Text.ofNat failure.1),
    ("error".toList, Json.printString failure.2.message)]

/-- The JSON text of a report, given that of an item. -/
def print (printItem : α → Text) (report : Report α) : Text :=
  Json.printObject [("items".toList, Json.printArray (report.items.map printItem)),
    ("failures".toList, Json.printArray (report.failures.map printFailure))]

end Report

end Formulary
