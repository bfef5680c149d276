import Formulary.Convert
import Formulary.Solution.Preview
import Formulary.Solution.Step
import Formulary.Text.Utf8
import Formulary.Toml.Settings

/-!
# The byte boundary

Callers from outside pass a request as bytes, or nothing, and options of their own form. They get
back data or an error, each a text without the character NUL, which ends a text on their side. Of
several things that are wrong with a call, the first of these is reported: there is no request, it
is not UTF-8, the options are not valid settings, the request itself fails.
-/

namespace Formulary.Boundary

/-- Bytes from a caller, which end before the first zero. -/
abbrev Bytes := List UInt8

/-- The bytes before the first zero. -/
def Bytes.content (bytes : Bytes) : Bytes := bytes.takeWhile (· ≠ 0)

/-- The options of a caller. A settings document, if there is one, stands for all the others. -/
structure Options where
  maxDepth : Int := 0
  displayFractions : Int := 0
  mathStyle : Int := 0
  document : Option Bytes := none
  deriving DecidableEq, Repr, Inhabited

/-- The settings that numbers give: a depth that is not positive means the default, any fraction
flag but zero means display size, and the math style one means displayed formulas. -/
def Options.fromNumbers (options : Options) : Settings where
  maxDepth := if 0 < options.maxDepth then options.maxDepth.toNat else ({} : Settings).maxDepth
  displayFractions := options.displayFractions ≠ 0
  mathStyle := if options.mathStyle = 1 then .display else .inline

/-- The settings of a call. -/
def settings (options : Option Options) : Except Failure Settings :=
  match options with
  | none => .ok {}
  | some options =>
    match options.document with
    | none => .ok options.fromNumbers
    | some bytes =>
      match Settings.ofDocument? (Utf8.decodeLossy bytes.content) with
      | some settings => .ok settings
      | none => .error .settings

/-- What is wrong with a call. -/
inductive Refusal where
  | noInput
  | notUtf8
  | failed (failure : Failure)
  deriving DecidableEq, Repr, Inhabited

/-- The wording of a refusal. -/
def Refusal.message : Refusal → Text
  | .noInput => "Null input pointer".toList
  | .notUtf8 => "Invalid UTF-8 input".toList
  | .failed failure => failure.message

/-- A text without the character NUL. -/
def withoutNul (text : Text) : Text := text.filter (· ≠ '\x00')

/-- A text that a NUL ends. There is none for a text that has a NUL of its own. -/
def terminated? (text : Text) : Option Text := if '\x00' ∈ text then none else some text

/-- The text that a caller receives. -/
def delivered (text : Text) : Text := (terminated? (withoutNul text)).getD []

/-- What a caller gets back: two texts, either of which may be absent. -/
structure Answer where
  /-- The result of the call. -/
  data? : Option Text
  /-- What is wrong with the call. -/
  error? : Option Text
  deriving DecidableEq, Repr, Inhabited

/-- The answer of a call that succeeds. -/
def Answer.ok (result : Text) : Answer where
  data? := some (delivered result)
  error? := none

/-- The answer of a call that fails. -/
def Answer.err (message : Text) : Answer where
  data? := none
  error? := some (delivered message)

/-- The answer for an outcome. -/
def Answer.ofOutcome : Except Refusal Text → Answer
  | .ok result => .ok result
  | .error refusal => .err refusal.message

/-- What a caller gets back, and the notices that a call gives. -/
structure Reply where
  notices : List Notice
  answer : Answer
  deriving DecidableEq, Repr, Inhabited

/-- The text of a request. -/
def requestText (input : Option Bytes) : Except Refusal Text :=
  match input with
  | none => .error .noInput
  | some bytes =>
    match Utf8.decode? bytes.content with
    | some text => .ok text
    | none => .error .notUtf8

/-- Run a function of the library on a request. -/
def run (function : Settings → Text → Run Failure Text) (input : Option Bytes)
    (options : Option Options) : Run Refusal Text := do
  let text ← Run.ofExcept (requestText input)
  let settings ← Run.ofExcept ((settings options).mapError .failed)
  (function settings text).mapError .failed

/-- Reply to a call. -/
def reply (function : Settings → Text → Run Failure Text) (input : Option Bytes)
    (options : Option Options) : Reply :=
  let run := run function input options
  ⟨run.notices, .ofOutcome run.outcome⟩

/-- Convert a tree in JSON. -/
def convert : Option Bytes → Option Options → Reply := reply convertJson

/-- Render a response with previews; the data is a report in JSON. -/
def previews : Option Bytes → Option Options → Reply :=
  reply fun settings text => do
    return (← Preview.ofResponse settings text).print Preview.print

/-- Render a response with steps; the data is a report in JSON. -/
def steps : Option Bytes → Option Options → Reply :=
  reply fun settings text => do
    return (← Step.ofResponse settings text).print Step.print

/-- The version of this interface. -/
def version : Text := "0.1.0".toList

end Formulary.Boundary
