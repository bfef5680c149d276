import Formulary.Solution.Report
import Formulary.Solution.Template

/-!
# Previews

A response with previews holds groups of entries. Every entry of a `vertical` group shows one way
to solve a problem: its title, its method, the problem and the solution, and an action that is
passed on as it is. The response must be well formed as a whole; what an entry holds is read when
it is its turn, and an entry that fails does not affect the others.
-/

namespace Formulary

open Json (Reader Decoder Record Value)

namespace Preview

/-- The problem and the solution of a preview. -/
structure Content where
  problem : Node
  solution : Node
  deriving BEq, Repr, Inhabited

/-- What a preview shows, before it is rendered. -/
structure Source where
  title : Template
  method : Template
  content : Content
  deriving BEq, Repr, Inhabited

/-- An entry of a response. -/
structure Entry where
  preview : Source
  nodeAction : Value := .null
  deriving Repr, Inhabited

/-- A group of entries, which are not read yet. -/
structure Group where
  kind : Text
  entries : List Value := []
  deriving Repr, Inhabited

/-! ## Reading -/

/-- The record of a preview's content. -/
def contentRecord : Record Decoder Content where
  name := "PreviewContent".toList
  blank := default
  fields := [
    { name := "problem".toList, read := do
        let problem ← Node.ofValue
        return fun content => { content with problem } },
    { name := "solution".toList, read := do
        let solution ← Node.ofValue
        return fun content => { content with solution } }]

/-- The record of what a preview shows. -/
def sourceRecord : Record Decoder Source where
  name := "Preview".toList
  blank := default
  fields := [
    { name := "title".toList, read := do
        let title ← Value.toRecord Template.record
        return fun source => { source with title } },
    { name := "method".toList, read := do
        let method ← Value.toRecord Template.record
        return fun source => { source with method } },
    { name := "content".toList, read := do
        let content ← Value.toRecord contentRecord
        return fun source => { source with content } }]

/-- The record of an entry. -/
def entryRecord : Record Decoder Entry where
  name := "PreviewEntry".toList
  blank := { preview := default }
  fields := [
    { name := "preview".toList, read := do
        let preview ← Value.toRecord sourceRecord
        return fun entry => { entry with preview } },
    { name := "nodeAction".toList, required := false, read := do
        let nodeAction ← read
        return fun entry => { entry with nodeAction } }]

/-- The record of a group, whose entries may nest the given number of lists and objects. -/
def groupRecord (room : Nat) : Record Reader Group where
  name := "PreviewGroup".toList
  blank := { kind := [] }
  fields := [
    { name := "type".toList, read := do
        let kind ← Json.readText
        return fun group => { group with kind } },
    { name := "entries".toList, required := false, read := do
        let entries ← Json.readList (some (Json.readValue room))
        return fun group => { group with entries } }]

/-- The record of a response. Four lists and objects stand around an entry. -/
def responseRecord : Record Reader (List Group) where
  name := "PreviewResponse".toList
  blank := []
  fields := [{ name := "groups".toList, required := false, read := do
    let group := Json.readRecord "PreviewGroup".toList (some (groupRecord (Json.nestingLimit - 4)))
    let groups ← Json.readList (some group)
    return fun _ => groups }]

/-- Read the groups of a response. -/
def readGroups (text : Text) : Except Json.Fault (List Group) :=
  Json.readWholeText (Json.readRecord "PreviewResponse".toList (some responseRecord)) text

/-- The entries that are shown: those of the vertical groups, in order. -/
def shownEntries (groups : List Group) : List Value :=
  (groups.filter fun group => group.kind = "vertical".toList).flatMap Group.entries

end Preview

/-! ## Rendering -/

/-- A rendered preview. -/
structure Preview where
  title : Text
  method : Text
  problem : Text
  solution : Text
  nodeAction : Value
  deriving Repr, Inhabited

namespace Preview

/-- Render what a preview shows. -/
def renderSource (settings : Settings) (entry : Entry) : Run RenderError Preview := do
  let title ← entry.preview.title.render settings
  let method ← entry.preview.method.render settings
  let problem ← convert settings entry.preview.content.problem
  let solution ← convert settings entry.preview.content.solution
  return { title, method, problem, solution, nodeAction := entry.nodeAction }

/-- Read and render an entry. -/
def ofEntry (settings : Settings) (entry : Value) : Run Failure Preview := do
  let decoded := (Value.toRecord entryRecord entry).mapError fun fault => .decode (.json fault)
  let entry ← Run.ofExcept decoded
  (renderSource settings entry).mapError .render

/-- Render the previews of a response. -/
def ofResponse (settings : Settings) (text : Text) : Run Failure (Report Preview) := do
  let groups ← Run.ofExcept ((readGroups text).mapError fun fault => .decode (.json fault))
  Report.collect ((shownEntries groups).map (ofEntry settings))

/-- The JSON text of a preview. -/
def print (preview : Preview) : Text :=
  Json.printObject [("title".toList, Json.printString preview.title),
    ("method".toList, Json.printString preview.method),
    ("problem".toList, Json.printString preview.problem),
    ("solution".toList, Json.printString preview.solution),
    ("nodeAction".toList, preview.nodeAction.print)]

end Preview

end Formulary
