import Formulary.Failure
import Formulary.Markup.Stage

/-!
# Notices

A conversion tells what happened along the way as a list of notices, in order. A `Run` is the
outcome of a computation together with the notices it gave before it ended; running one
computation after another joins their notices, and a failure keeps those given before it.
Runs form a lawful monad, so the order in which steps are bracketed does not matter.
-/

namespace Formulary

/-- Something worth telling about a conversion. -/
inductive Notice where
  /-- A node has a kind without a layout and is dumped. -/
  | unknownKind (kind : Text)
  /-- A stage rewrote the markup. -/
  | rewrote (stage : Stage) (before after : Text)
  /-- A tree of a batch failed. -/
  | treeFailed (index : Nat) (failure : Failure)
  /-- An item of a solution failed. -/
  | itemFailed (index : Nat) (failure : Failure)
  deriving DecidableEq, Repr, Inhabited

/-- How grave a notice is. -/
inductive Level where
  | warn
  | debug
  | trace
  deriving DecidableEq, Repr, Inhabited

namespace Notice

/-- The level of a notice. -/
def level : Notice → Level
  | .unknownKind _ => .warn
  | .rewrote .. => .trace
  | .treeFailed .. | .itemFailed .. => .debug

/-- The part of the library that gives a notice. -/
def source : Notice → Text
  | .unknownKind _ => "mathnode_latex::render".toList
  | .rewrote .. => "mathnode_latex::postprocess".toList
  | .treeFailed .. => "mathnode_latex".toList
  | .itemFailed .. => "mathnode_latex::solution".toList

/-- The wording of a notice. -/
def message : Notice → Text
  | .unknownKind kind =>
    "unknown node type `".toList ++ kind ++ "`, rendering structural dump".toList
  | .rewrote stage before after =>
    stage.name ++ ": ".toList ++ before ++ " -> ".toList ++ after
  | .treeFailed index failure =>
    "tree ".toList ++ Text.ofNat index ++ " failed: ".toList ++ failure.message
  | .itemFailed index failure =>
    "item ".toList ++ Text.ofNat index ++ " failed: ".toList ++ failure.message

end Notice

/-- The notices of a computation and its outcome. -/
structure Run (ε α : Type) where
  notices : List Notice
  outcome : Except ε α
  deriving Inhabited

namespace Run

variable {ε α β : Type}

/-- Give nothing but a result. -/
def ok (value : α) : Run ε α := ⟨[], .ok value⟩

/-- Fail. -/
def fail (error : ε) : Run ε α := ⟨[], .error error⟩

/-- The outcome of a computation that gives no notices. -/
def ofExcept (outcome : Except ε α) : Run ε α := ⟨[], outcome⟩

/-- Give one notice. -/
def tell (notice : Notice) : Run ε Unit := ⟨[notice], .ok ()⟩

/-- Run a computation and then another one with its result. -/
def andThen (run : Run ε α) (next : α → Run ε β) : Run ε β :=
  match run.outcome with
  | .ok value => ⟨run.notices ++ (next value).notices, (next value).outcome⟩
  | .error error => ⟨run.notices, .error error⟩

instance : Monad (Run ε) where
  pure := ok
  bind := andThen

/-- A computation that ends with a result gives its notices before those of the next one. -/
theorem andThen_ok (notices : List Notice) (value : α) (next : α → Run ε β) :
    andThen ⟨notices, .ok value⟩ next = ⟨notices ++ (next value).notices, (next value).outcome⟩ :=
  rfl

theorem andThen_result (run : Run ε α) : andThen run ok = run := by
  obtain ⟨notices, outcome⟩ := run
  cases outcome with
  | error error => rfl
  | ok value => simp [andThen_ok, ok]

theorem andThen_assoc {γ : Type} (run : Run ε α) (next : α → Run ε β) (last : β → Run ε γ) :
    andThen (andThen run next) last = andThen run fun value => andThen (next value) last := by
  obtain ⟨notices, outcome⟩ := run
  cases outcome with
  | error error => rfl
  | ok value =>
    rw [andThen_ok, andThen_ok]
    obtain ⟨later, outcome⟩ := next value
    cases outcome with
    | error error => rfl
    | ok value => simp [andThen_ok]

instance : LawfulMonad (Run ε) :=
  .mk' (Run ε) andThen_result (fun _ _ => rfl) andThen_assoc

/-- Rename the failure of a computation. -/
def mapError {ε' : Type} (f : ε → ε') (run : Run ε α) : Run ε' α :=
  ⟨run.notices, run.outcome.mapError f⟩

end Run

end Formulary
