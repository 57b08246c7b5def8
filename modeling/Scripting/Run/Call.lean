import Scripting.Run.Resolve

/-!
# Calls

A call of a declared function is taken as a parameter here, so that everything in this module is
independent of how deep calls may nest. Native functions are run by answering their requests one
after another.
-/

namespace Scripting

/-- A way to run a declared function on some values, on behalf of the call at the given place. The
result is missing when the body ends without a return. -/
abbrev Invoke := Declaration → List Value → Span → Exec (Option Value)

namespace Exec

/-! ## Native functions -/

/-- The argument token of a call. -/
def argumentToken (site : CallSite) (index : Nat) : Exec Token :=
  match site.args[index]? with
  | some token => return token
  | none =>
    throw (site.error (site.function ++ "() is missing argument " ++ toString (index + 1)))

/-- Ask the console for a line. -/
def readLine (prompt : String) : Exec String := do
  let answer ← modifyGet fun state =>
    let (answer, console) := state.console.read prompt
    (answer, { state with console })
  match answer with
  | some line => return line
  | none => throw { cause := .io "no more input" }

/-- What the running scope holds. -/
def overview : Exec Overview := do
  let state ← get
  return {
    vars := state.vars.entries.length
    functions := state.functions.length
    returns := state.log.size
    modules := state.imports.names }

/-- The work of a native function that was called at the given site. -/
def native {α : Type} (invoke : Invoke) (site : CallSite) : Native α → Exec α
  | .done result => return result
  | .fail error => throw error
  | .argument index next => do
    let token ← argumentToken site index
    let value ← operand token
    native invoke site (next value)
  | .callback index next => do
    let token ← argumentToken site index
    let declaration ← callback token
    native invoke site (next { name := declaration.name, arity := declaration.arity })
  | .invoke function values next => do
    match (← get).function? function.name with
    | some declaration =>
      let result ← invoke declaration values site.span
      native invoke site (next result)
    | none => refuse (.undefinedFunction function.name) site.span
  | .lookup name next => do
    if (← get).vars.contains name then
      let value ← readVariable name
      native invoke site (next (some value))
    else
      native invoke site (next none)
  | .assign name value next => do
    assignVariable name value
    native invoke site next
  | .write line next => do
    modify fun state => { state with console := state.console.write line }
    native invoke site next
  | .read prompt next => do
    let line ← readLine prompt
    native invoke site (next line)
  | .inspect next => do
    let overview ← overview
    native invoke site (next overview)

/-- A call of a function of a module. -/
def callNative (invoke : Invoke) (module : String) (function : NativeFunction) (args : List Token)
    (span : Span) : Exec (Option Value) :=
  if function.arity.accepts args.length then
    let site : CallSite := { function := function.name, args, span }
    decorate (·.orAt span) (native invoke site (function.body site))
  else
    refuse
      (.wrongArity (module ++ "." ++ function.name) function.arity.text args.length) span

/-! ## Fields of modules and maps -/

/-- A field of a module, or a call of a function of a module. -/
def moduleField (invoke : Invoke) (module : Module) (access : Access) : Exec (Option Value) :=
  match module.export? access.field, access.args with
  | none, _ => refuse (.missingExport access.module access.field) access.span
  | some (.function function), some args =>
    callNative invoke module.name function args access.span
  | some (.function function), none =>
    return some (.function { module := some module.name, name := function.name })
  | some (.field _), some _ => refuse (.notCallable access.module access.field) access.span
  | some (.field value), none => return some value

/-- A field of a map that a variable holds. -/
def mapField (access : Access) : Exec (Option Value) := do
  if access.args.isSome then
    refuse (.notCallable access.module access.field) access.span
  else
    match ← readVariable access.module with
    | .map fields =>
      match Fields.get? fields access.field with
      | some value => return some value
      | none => refuse (.missingExport access.module access.field) access.span
    | _ => refuse (.notAMap access.module) access.span

/-- A field of a module in view or else of a variable. -/
def field (invoke : Invoke) (access : Access) : Exec (Option Value) := do
  let state ← get
  match state.imports.get? access.module with
  | some module => moduleField invoke module access
  | none =>
    if state.vars.contains access.module then mapField access
    else refuse (.undefinedModule access.module) access.span

/-! ## Declared functions and expressions -/

/-- A call of a declared function. -/
def callDeclared (invoke : Invoke) (call : Call) : Exec (Option Value) := do
  match (← get).function? call.name with
  | none => refuse (.undefinedFunction call.name) call.span
  | some declaration =>
    if declaration.arity ≠ call.args.length then
      refuse (.wrongArity call.name (toString declaration.arity) call.args.length) call.span
    else
      let values ← operands call.args
      invoke declaration values call.span

/-- What an expression is called in errors and in the log. -/
def label : Expr → String
  | .literal token | .reference token => token.lexeme
  | .call call => call.name
  | .access access => access.qualifiedName

/-- The value of an expression, which a call may fail to give. -/
def evaluate? (invoke : Invoke) : Expr → Exec (Option Value)
  | .literal token | .reference token => some <$> operand token
  | .call call => callDeclared invoke call
  | .access access => field invoke access

/-- The value of an expression. -/
def evaluate (invoke : Invoke) (expr : Expr) : Exec Value := do
  match ← evaluate? invoke expr with
  | some value => return value
  | none => refuse (.noReturnValue (label expr)) expr.span

end Exec

end Scripting
