import Scripting.Library.Arguments
import Scripting.Text.Search

/-!
# The module `IO`

Writing lines to the console and reading them.
-/

namespace Scripting.Library.Terminal

/-- The name of the module. -/
def name : String := "IO"

/-- Write all arguments on one line, with spaces between them. -/
def print (site : CallSite) : Native (Option Value) := do
  let values ← site.values
  Native.writeLine (String.intercalate " " (values.map Value.text))
  return none

/-- The format with its placeholders filled with the texts of some values. -/
def fillPlaceholders (format : String) (values : List Value) : String :=
  String.ofList (Text.fill format.toList (values.map (·.text.toList)))

/-- Write a format, with each placeholder exchanged for the next argument. -/
def printf (site : CallSite) : Native (Option Value) := do
  match ← site.values with
  | format :: values =>
    checkType site name 0 format .string
    Native.writeLine (fillPlaceholders format.text values)
    return none
  | [] => return none

/-- Show a prompt and store the line that is read in a variable that holds a text. -/
def scan (site : CallSite) : Native (Option Value) := do
  let prompt ← stringArgument site name 0
  match site.args[1]? with
  | some target =>
    if target.kind = .identifier then
      match ← Native.current target.lexeme with
      | none => .fail (.locate (.undefinedVariable target.lexeme) target.span)
      | some current =>
        if current.type ≠ .string then
          .fail (.locate (.typeMismatch target.lexeme current.type .string) target.span)
        else
          let line ← Native.readLine prompt
          Native.store target.lexeme (.string line)
          return none
    else
      refusal
  | none => refusal
where
  /-- What `scan` says when there is no variable to read into. -/
  refusal : Native (Option Value) :=
    .fail (site.argumentError 1 "second argument of scan() must be a variable")

/-- The module. -/
def module : Module :=
  ({ name } : Module)
    |>.withFunction "print" (.atLeast 0) print
    |>.withFunction "printf" (.atLeast 2) printf
    |>.withFunction "scan" (.exactly 2) scan

end Scripting.Library.Terminal
