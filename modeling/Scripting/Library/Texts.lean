import Scripting.Library.Arguments
import Scripting.Text.Blank
import Scripting.Text.LowerCase
import Scripting.Text.Search

/-!
# The module `String`

Small changes to texts.
-/

namespace Scripting.Library.Texts

/-- The name of the module. -/
def name : String := "String"

/-- The first argument with the leftmost occurrence of the second exchanged for the third. -/
def replace (site : CallSite) : Native (Option Value) := do
  let text ← stringArgument site name 0
  let needle ← stringArgument site name 1
  let replacement ← stringArgument site name 2
  return some (.string (Text.replaceFirst needle replacement text))

/-- The argument without the blanks at its ends. -/
def trim (site : CallSite) : Native (Option Value) := do
  let text ← stringArgument site name 0
  return some (.string (Text.trim text))

/-- The argument in lower case. -/
def toLowerCase (site : CallSite) : Native (Option Value) := do
  let text ← stringArgument site name 0
  return some (.string (Text.toLowerCase text))

/-- The characters of the argument, each as a text of its own. -/
def chars (site : CallSite) : Native (Option Value) := do
  let text ← stringArgument site name 0
  return some (.array (text.toList.map fun c => .string c.toString))

/-- The module. -/
def module : Module :=
  ({ name } : Module)
    |>.withFunction "replace" (.exactly 3) replace
    |>.withFunction "trim" (.exactly 1) trim
    |>.withFunction "toLowerCase" (.exactly 1) toLowerCase
    |>.withFunction "chars" (.exactly 1) chars

end Scripting.Library.Texts
