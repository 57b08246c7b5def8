import Scripting.Module.Basic

/-!
# Arguments of library functions

Functions of the library ask for arguments of a certain type and refuse others at the place of the
argument.
-/

namespace Scripting.Library

/-- Refuse an argument value that does not have the type expected. -/
def checkType (site : CallSite) (module : String) (index : Nat) (value : Value)
    (expected : ValueType) : Native Unit :=
  if value.type = expected then
    return
  else
    .fail (.locate
      (.argumentType (module ++ "." ++ site.function) (index + 1) expected value.type)
      (site.argumentSpan index))

/-- An argument that has to be a text. -/
def stringArgument (site : CallSite) (module : String) (index : Nat) : Native String := do
  let value ← Native.value index
  checkType site module index value .string
  return value.text

/-- An argument that has to be a number. -/
def numberArgument (site : CallSite) (module : String) (index : Nat) : Native Float := do
  let value ← Native.value index
  checkType site module index value .number
  match value with
  | .number x => return x
  | _ => .fail (site.argumentError index (site.function ++ "() takes only numbers"))

/-- An argument that has to be an array. -/
def arrayArgument (site : CallSite) (module : String) (index : Nat) : Native (List Value) := do
  let value ← Native.value index
  checkType site module index value .array
  match value with
  | .array items => return items
  | _ =>
    .fail (site.argumentError index (site.function ++ "() expected an Array as first argument"))

/-- As many arguments as given from the given one on, all of which have to be numbers, after those
that are known already, which stand latest first. -/
def numbersFrom (site : CallSite) (module : String) (known : List Float) (index : Nat) :
    Nat → Native (List Float)
  | 0 => return known.reverse
  | count + 1 => do
    numbersFrom site module ((← numberArgument site module index) :: known) (index + 1) count

/-- All arguments, which have to be numbers. -/
def numberArguments (site : CallSite) (module : String) : Native (List Float) :=
  numbersFrom site module [] 0 site.args.length

end Scripting.Library
