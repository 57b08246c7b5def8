import Scripting.Value.Basic

/-!
# Native functions

A function of a module is written against the run that calls it, not against any state of its own.
Its work is a `Native`: a finite tree whose nodes are requests to the run and whose branches are the
possible answers. The run alone decides what a request means; a native function can do nothing but
ask, fail or finish.
-/

namespace Scripting

/-- A call of a native function: its name, its arguments as they are written, and its place. -/
structure CallSite where
  function : String
  args : List Token
  span : Span

/-- A declared function that an argument names. -/
structure Callback where
  name : String
  arity : Nat
  deriving DecidableEq

/-- How much the calling scope holds, and which modules it sees. -/
structure Overview where
  vars : Nat
  functions : Nat
  returns : Nat
  modules : List String

/-- Work that ends in a result of type `α` after a number of requests. -/
inductive Native (α : Type) where
  /-- Finish with a result. -/
  | done (result : α)
  /-- Give up. -/
  | fail (error : Error)
  /-- Ask for the value of an argument. -/
  | argument (index : Nat) (next : Value → Native α)
  /-- Ask which declared function an argument names. -/
  | callback (index : Nat) (next : Callback → Native α)
  /-- Ask for a declared function to be run on some values. -/
  | invoke (function : Callback) (values : List Value) (next : Option Value → Native α)
  /-- Ask for the value of a variable of the calling scope, if there is such a variable. -/
  | lookup (name : String) (next : Option Value → Native α)
  /-- Ask for a variable of the calling scope to be given a value. -/
  | assign (name : String) (value : Value) (next : Native α)
  /-- Ask for a line to be written to the console. -/
  | write (line : String) (next : Native α)
  /-- Ask for a line to be read from the console. -/
  | read (prompt : String) (next : String → Native α)
  /-- Ask what the calling scope holds. -/
  | inspect (next : Overview → Native α)

namespace Native

variable {α β : Type}

/-- Go on with `next` when the work is done. -/
def bind (work : Native α) (next : α → Native β) : Native β :=
  match work with
  | done result => next result
  | fail error => fail error
  | argument index k => argument index fun value => (k value).bind next
  | callback index k => callback index fun function => (k function).bind next
  | invoke function values k => invoke function values fun result => (k result).bind next
  | lookup name k => lookup name fun value => (k value).bind next
  | assign name value k => assign name value (k.bind next)
  | write line k => write line (k.bind next)
  | read prompt k => read prompt fun line => (k line).bind next
  | inspect k => inspect fun overview => (k overview).bind next

instance : Monad Native where
  pure := done
  bind := bind

/-- The value of an argument. -/
def value (index : Nat) : Native Value := argument index done

/-- The declared function that an argument names. -/
def function (index : Nat) : Native Callback := callback index done

/-- The result of a declared function on some values. -/
def call (function : Callback) (values : List Value) : Native (Option Value) :=
  invoke function values done

/-- The value of a variable of the calling scope. -/
def current (name : String) : Native (Option Value) := lookup name done

/-- Give a variable of the calling scope a value. -/
def store (name : String) (value : Value) : Native Unit := assign name value (done ())

/-- Write a line to the console. -/
def writeLine (line : String) : Native Unit := write line (done ())

/-- Read a line from the console. -/
def readLine (prompt : String) : Native String := read prompt done

/-- What the calling scope holds. -/
def overview : Native Overview := inspect done

/-- The values of `count` arguments from the given one on, after those that are known already, which
stand latest first. -/
def valuesFrom (known : List Value) (index : Nat) : Nat → Native (List Value)
  | 0 => return known.reverse
  | count + 1 => do valuesFrom ((← value index) :: known) (index + 1) count

end Native

namespace CallSite

/-- The values of all arguments, in order. -/
def values (site : CallSite) : Native (List Value) :=
  Native.valuesFrom [] 0 site.args.length

/-- A failure that points at the call. -/
def error (site : CallSite) (message : String) : Error :=
  .locate (.runtime message) site.span

/-- The place of an argument, or of the call when there is no such argument. -/
def argumentSpan (site : CallSite) (index : Nat) : Span :=
  (site.args[index]?.map Token.span).getD site.span

/-- A failure that points at an argument. -/
def argumentError (site : CallSite) (index : Nat) (message : String) : Error :=
  .locate (.runtime message) (site.argumentSpan index)

end CallSite

end Scripting
