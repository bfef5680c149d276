import Formulary.Render.Markup
import Formulary.Tree.Decode

/-!
# Templates of a response

Titles, methods and headers are localized texts with placeholders for trees. They stay text: every
argument becomes an inline fragment in it.
-/

namespace Formulary

open Json (Decoder Record Value)

/-- A localized text and its arguments. -/
structure Template where
  text : Text
  args : List Node := []
  deriving BEq, Repr, Inhabited

namespace Template

/-- The record that holds the text of a template. -/
def textRecord : Record Decoder Text where
  name := "TemplateText".toList
  blank := []
  fields := [{ name := "text".toList, read := do
    let text ← Value.toText
    return fun _ => text }]

/-- The record of a template. -/
def record : Record Decoder Template where
  name := "LocalizedTemplate".toList
  blank := { text := [] }
  fields := [
    { name := "localizedText".toList, read := do
        let text ← Value.toRecord textRecord
        return fun template => { template with text } },
    { name := "args".toList, required := false, read := do
        let args ← Value.toList Node.ofValue
        return fun template => { template with args } }]

/-- Fill a template with the fragments of its arguments. -/
def render (settings : Settings) (template : Template) : Run RenderError Text :=
  Placeholder.substitute settings.substitution (fragment settings) template.args template.text

end Template

end Formulary
