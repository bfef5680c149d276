import Formulary.Settings
import Formulary.Toml.Document

/-!
# Settings from a document

Each entry of the document sets one field; the others keep their defaults. An entry that names no
field, or whose value does not fit the field, refuses the document. A choice is named by a string,
or by a table with one entry that is named after the choice and holds nothing.
-/

namespace Formulary.Settings

open Toml (Item Table)

/-- The name of a choice. -/
def choice? : Item → Option Text
  | .string name => some name
  | .table _ [(name, .table _ [])] => some name
  | .table _ [(name, .list [])] => some name
  | _ => none

/-- The substitution with a name. -/
def substitution? (name : Text) : Option Substitution :=
  [("first_occurrence".toList, Substitution.first), ("all_occurrences".toList, .all)].lookup name

/-- The treatment of pipes with a name. -/
def pipeSizing? (name : Text) : Option PipeSizing :=
  [("scoped".toList, PipeSizing.scoped), ("first_pair".toList, .firstPair),
   ("off".toList, .off)].lookup name

/-- The math style with a name. -/
def mathStyle? (name : Text) : Option MathStyle :=
  [("inline".toList, MathStyle.inline), ("display".toList, .display)].lookup name

/-- The fields of the settings. -/
inductive Field where
  | maxDepth
  | substitution
  | displayFractions
  | pipeSizing
  | mathStyle
  | answerHeader
  deriving DecidableEq, Repr, Inhabited

namespace Field

/-- What a field holds. -/
abbrev Holds : Field → Type
  | .maxDepth => Nat
  | .substitution => Substitution
  | .displayFractions => Bool
  | .pipeSizing => PipeSizing
  | .mathStyle => MathStyle
  | .answerHeader => Text

/-- The name of a field in a document. -/
def name : Field → Text
  | .maxDepth => "max_depth".toList
  | .substitution => "arg_substitution".toList
  | .displayFractions => "display_fractions".toList
  | .pipeSizing => "pipe_sizing".toList
  | .mathStyle => "math_style".toList
  | .answerHeader => "answer_header".toList

/-- Every field. -/
def all : List Field :=
  [.maxDepth, .substitution, .displayFractions, .pipeSizing, .mathStyle, .answerHeader]

/-- The field with a name. -/
def ofName? (name : Text) : Option Field := all.find? fun field => field.name = name

/-- What an item says about a field, unless it does not fit the field. -/
def read? : (field : Field) → Item → Option field.Holds
  | .maxDepth, .integer value => if 0 ≤ value then some value.toNat else none
  | .substitution, item => (choice? item).bind substitution?
  | .displayFractions, .boolean value => some value
  | .pipeSizing, item => (choice? item).bind pipeSizing?
  | .mathStyle, item => (choice? item).bind mathStyle?
  | .answerHeader, .string content => some content
  | .maxDepth, _ | .displayFractions, _ | .answerHeader, _ => none

end Field

/-- What the settings hold in a field. -/
def get (settings : Settings) : (field : Field) → field.Holds
  | .maxDepth => settings.maxDepth
  | .substitution => settings.substitution
  | .displayFractions => settings.displayFractions
  | .pipeSizing => settings.pipeSizing
  | .mathStyle => settings.mathStyle
  | .answerHeader => settings.answerHeader

/-- Change what the settings hold in a field. -/
def put (settings : Settings) : (field : Field) → field.Holds → Settings
  | .maxDepth, maxDepth => { settings with maxDepth }
  | .substitution, substitution => { settings with substitution }
  | .displayFractions, displayFractions => { settings with displayFractions }
  | .pipeSizing, pipeSizing => { settings with pipeSizing }
  | .mathStyle, mathStyle => { settings with mathStyle }
  | .answerHeader, answerHeader => { settings with answerHeader }

/-- Set the field that an entry names. -/
def set (settings : Settings) (entry : Text × Item) : Option Settings := do
  let field ← Field.ofName? entry.1
  let value ← field.read? entry.2
  return settings.put field value

/-- The settings that a table gives. -/
def ofTable (table : Table) : Option Settings := table.foldlM set {}

/-- The settings that a document gives. -/
def ofDocument? (text : Text) : Option Settings := (Toml.read text).bind ofTable

end Formulary.Settings
