import Scripting.Library.Arguments
import Scripting.Text.Blank

/-!
# The modules `Number` and `Math`

Reading numbers from texts, sums and differences, and a few constants.
-/

namespace Scripting.Library

namespace Conversion

/-- The name of the module. -/
def name : String := "Number"

/-- The number that a text writes. Blanks around it do not matter, but it has to be finite. -/
def parse (site : CallSite) : Native (Option Value) := do
  let text ← stringArgument site name 0
  match Number.ofText? (Text.trim text) with
  | some x => if x.isFinite then return some (.number x) else refusal text
  | none => refusal text
where
  /-- What `parse` says to a text that writes no number. -/
  refusal (text : String) : Native (Option Value) :=
    .fail (site.argumentError 0 ("\"" ++ text ++ "\" can't be parsed to a Number"))

/-- The module. -/
def module : Module :=
  ({ name } : Module).withFunction "parse" (.exactly 1) parse

end Conversion

namespace Arithmetic

/-- The name of the module. -/
def name : String := "Math"

/-- The sum of all arguments, added from left to right to negative zero, which is the number that
changes no other when it is added. -/
def sum (site : CallSite) : Native (Option Value) := do
  let numbers ← numberArguments site name
  return some (.number (numbers.foldl (· + ·) (Number.ofPattern true 0)))

/-- The first argument less all others. -/
def subtract (site : CallSite) : Native (Option Value) := do
  match ← numberArguments site name with
  | first :: rest => return some (.number (rest.foldl (· - ·) first))
  | [] => .fail (site.error "subtract() takes at least 2 arguments")

/-- The double nearest to pi. -/
def pi : Value := .number (Number.ofPattern false 0x400921FB54442D18)

/-- The double nearest to the base of the natural logarithm. -/
def e : Value := .number (Number.ofPattern false 0x4005BF0A8B145769)

/-- The double nearest to twice pi. -/
def tau : Value := .number (Number.ofPattern false 0x401921FB54442D18)

/-- The module. -/
def module : Module :=
  ({ name } : Module)
    |>.withFunction "sum" (.atLeast 2) sum
    |>.withFunction "subtract" (.atLeast 2) subtract
    |>.withField "PI" pi
    |>.withField "E" e
    |>.withField "constants" (.map (Fields.ofList [("PI", pi), ("E", e), ("TAU", tau)]))

end Arithmetic

end Scripting.Library
