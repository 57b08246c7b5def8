import Scripting.Library.Arguments

/-!
# The module `Array`

Making arrays and running a function on all items of one.
-/

namespace Scripting.Library.Arrays

/-- The name of the module. -/
def name : String := "Array"

/-- The array of the arguments, which have to be of one type. -/
def create (site : CallSite) : Native (Option Value) := do
  let values ← site.values
  match values.findIdx? fun value => values.head?.any (·.type ≠ value.type) with
  | some index => .fail (site.argumentError index "all values must be of the same type")
  | none => return some (.array values)

/-- The results of a function on the items of a list, each with its index, after the results that are
there already, which stand latest first. -/
def mapFrom (site : CallSite) (function : Callback) (results : List Value) (index : Nat) :
    List Value → Native (List Value)
  | [] => return results.reverse
  | item :: items => do
    match ← Native.call function [item, .number (Float.ofNat index)] with
    | none => .fail (.locate (.noReturnValue function.name) site.span)
    | some result => mapFrom site function (result :: results) (index + 1) items

/-- The array of the results of a function of two parameters on each item and its index. -/
def map (site : CallSite) : Native (Option Value) := do
  let items ← arrayArgument site name 0
  let function ← Native.function 1
  if function.arity ≠ 2 then
    .fail (site.argumentError 1
      ("map() callback expected 2 arguments, got " ++ toString function.arity))
  else
    return some (.array (← mapFrom site function [] 0 items))

/-- The module. -/
def module : Module :=
  ({ name } : Module)
    |>.withFunction "create" (.atLeast 1) create
    |>.withFunction "map" (.exactly 2) map

end Scripting.Library.Arrays
