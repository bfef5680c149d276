import Formulary.Solution.Report
import Formulary.Solution.Template

/-!
# Steps

A response with a detailed solution holds steps and the final answer. A step shows the tree of its
first substep under its first header; the answer comes last, under the header of the settings. As
with previews, what a step holds is read when it is its turn.
-/

namespace Formulary

open Json (Reader Decoder Record Value)

namespace Step

/-- What a step holds, before it is rendered. -/
structure Source where
  substeps : List Node := []
  headers : List Template := []
  deriving BEq, Repr, Inhabited

/-- The steps of a response, which are not read yet, and its answer. -/
structure Result where
  steps : List Value := []
  solution : Node
  deriving Repr, Inhabited

/-! ## Reading -/

/-- The record of a substep. -/
def substepRecord : Record Decoder Node where
  name := "Substep".toList
  blank := default
  fields := [{ name := "left".toList, read := do
    let left ← Node.ofValue
    return fun _ => left }]

/-- The record of a step. -/
def sourceRecord : Record Decoder Source where
  name := "RawStep".toList
  blank := {}
  fields := [
    { name := "substeps".toList, required := false, read := do
        let substeps ← Value.toList (Value.toRecord substepRecord)
        return fun source => { source with substeps } },
    { name := "headers".toList, required := false, read := do
        let headers ← Value.toList (Value.toRecord Template.record)
        return fun source => { source with headers } }]

/-- The record of a result. Two objects stand around its answer, and a list besides around a
step. -/
def resultRecord : Record Reader Result where
  name := "StepsResult".toList
  blank := { solution := default }
  fields := [
    { name := "steps".toList, required := false, read := do
        let steps ← Json.readList (some (Json.readValue (Json.nestingLimit - 3)))
        return fun result => { result with steps } },
    { name := "solution".toList, read := do
        let solution ← Node.readWithin (Json.nestingLimit - 2)
        return fun result => { result with solution } }]

/-- The record of a response. -/
def responseRecord : Record Reader Result where
  name := "StepsResponse".toList
  blank := default
  fields := [{ name := "result".toList, read := do
    let result ← Json.readRecord "StepsResult".toList (some resultRecord)
    return fun _ => result }]

/-- Read the result of a response. -/
def readResult (text : Text) : Except Json.Fault Result :=
  Json.readWholeText (Json.readRecord "StepsResponse".toList (some responseRecord)) text

end Step

/-! ## Rendering -/

/-- A rendered step. -/
structure Step where
  step : Text
  header : Text
  deriving DecidableEq, Repr, Inhabited

namespace Step

/-- The first entry of a list in a step. -/
def firstOf {α : Type} (name : String) : List α → Except Failure α
  | [] => .error (.decode (.missingField name.toList))
  | item :: _ => .ok item

/-- Read and render a step. -/
def ofValue (settings : Settings) (value : Value) : Run Failure Step := do
  let decoded := (Value.toRecord sourceRecord value).mapError fun fault => .decode (.json fault)
  let source ← Run.ofExcept decoded
  let substep ← Run.ofExcept (firstOf "substeps" source.substeps)
  let header ← Run.ofExcept (firstOf "headers" source.headers)
  Run.mapError .render do
    let step ← convert settings substep
    let header ← header.render settings
    return { step, header }

/-- Render the final answer. -/
def ofAnswer (settings : Settings) (solution : Node) : Run Failure Step :=
  Run.mapError .render do
    let step ← convert settings solution
    return { step, header := settings.answerHeader }

/-- Render the steps of a response and its answer, whose index is the number of steps taken up. -/
def ofResponse (settings : Settings) (text : Text) : Run Failure (Report Step) := do
  let result ← Run.ofExcept ((readResult text).mapError fun fault => .decode (.json fault))
  let report ← Report.collect (result.steps.map (ofValue settings))
  report.record report.size (ofAnswer settings result.solution)

/-- The JSON text of a step. -/
def print (step : Step) : Text :=
  Json.printObject [("step".toList, Json.printString step.step),
    ("header".toList, Json.printString step.header)]

end Step

end Formulary
