import Scripting.Run.Call

/-!
# Statements

Statements run in order until one of them returns. A declaration or an assignment from a call binds
its variable to a fresh cell before the call runs and fills the cell afterwards; if the call fails,
the variable is as it was before.

Calls may nest `callLimit` deep. `callWithin` counts the levels that are left, which is what makes
every run come to an end.
-/

namespace Scripting

/-- Whether the statements of a body go on or end with a value. -/
inductive Flow where
  | goOn
  | returned (value : Value)

namespace Exec

variable (invoke : Invoke)

/-! ## Bindings -/

/-- Run the call in an expression for a variable that is bound to `cell` already. -/
def capture (owner : String) (cell : Cell) (expr : Expr) : Exec Unit := do
  let value ← evaluate invoke expr
  modify fun state => { state with cells := state.cells.fill cell value }
  pushRecord { name := label expr, cell, owner := some owner, span := expr.span }

/-- Declare a variable. -/
def declare (name : String) (expr : Expr) (span : Span) : Exec Unit := do
  if (← get).vars.contains name then
    refuse (.alreadyDeclared name) span
  else if expr.isCall then
    let cell ← makeCell none
    declareVariable (.ofCell name cell)
    orUndo (capture invoke name cell expr) fun state =>
      { state with vars := state.vars.remove name }
  else
    match expr with
    | .reference token => declareVariable (← reference name token)
    | expr => declareVariable (.plain name (← evaluate invoke expr))

/-- Bind an existing variable anew. A literal has to keep the variable's type. -/
def rebind (name : String) (previous : Variable) (expr : Expr) : Exec Unit := do
  if expr.isCall then
    let cell ← makeCell none
    replaceVariable (.ofCell name cell)
    orUndo (capture invoke name cell expr) fun state =>
      { state with vars := state.vars.replace previous }
  else
    match expr with
    | .literal token =>
      let value ← Value.ofLiteral token
      let current ← readVariable name
      if current.type ≠ value.type then
        refuse (.typeMismatch name current.type value.type) token.span
      else
        assignVariable name value
    | .reference token => replaceVariable (← reference name token)
    | expr => assignVariable name (← evaluate invoke expr)

/-- Take a name away from the records that it referred to through its previous cell. A variable that
now holds a plain value gets a record of its own, so that other scopes see the new value. -/
def moveRecords (name : String) (previous : Cell) (span : Span) : Exec Unit := do
  let state ← get
  let current := (state.vars.get? name).bind Variable.cell
  if current = some previous then
    return
  else
    modify fun state => { state with log := state.log.release previous name }
    if state.log.binds previous name && current.isNone then
      let value ← readVariable name
      let cell ← makeCell (some value)
      replaceVariable (.ofCell name cell)
      pushRecord { name, cell, owner := some name, span }

/-- Assign to a variable. -/
def assign (name : String) (expr : Expr) (span : Span) : Exec Unit := do
  match (← get).vars.get? name with
  | none => refuse (.undefinedVariable name) span
  | some previous =>
    rebind invoke name previous expr
    match previous.cell with
    | some cell => moveRecords name cell span
    | none => return

/-- Assign to a field of a map. A field that exists keeps its type. -/
def assignField (map field : String) (expr : Expr) (span : Span) : Exec Unit := do
  match ← readVariable map with
  | .map fields =>
    let value ← evaluate invoke expr
    match Fields.get? fields field with
    | some existing =>
      if existing.type ≠ value.type then
        refuse (.typeMismatch (map ++ "." ++ field) existing.type value.type) expr.span
      else
        assignVariable map (.map (Fields.insert field value fields))
    | none => assignVariable map (.map (Fields.insert field value fields))
  | _ => refuse (.notAMap map) span

/-! ## Statements -/

/-- Declare a function. -/
def declareFunction (declaration : Declaration) : Exec Unit := do
  if ((← get).function? declaration.name).isSome then
    refuse (.functionAlreadyDeclared declaration.name) declaration.span
  else
    modify fun state => { state with functions := declaration :: state.functions }

/-- Use a field of a module or map for its effect. The value of a call is recorded. -/
def useField (access : Access) : Exec Unit := do
  match ← field invoke access, access.args with
  | some value, some _ =>
    let cell ← makeCell (some value)
    pushRecord { name := access.qualifiedName, cell, owner := none, span := access.span }
  | _, _ => return

/-- Return from a body. -/
def returnValue (scope : Option String) (expr : Expr) (span : Span) : Exec Flow := do
  let value ← evaluate invoke expr
  let cell ← makeCell (some value)
  pushRecord { name := scope.getD "", cell, owner := none, span }
  return .returned value

/-- Bring modules into view. -/
def mergeImports (imports : ImportTable) : Exec Unit :=
  modify fun state => { state with imports := state.imports.merge imports }

mutual

/-- Run a statement. An error that points nowhere comes to point at the statement. -/
def statement : Statement → Exec Flow
  | { form, span, scope, .. } => decorate (·.orAt span) (formOf span scope form)

/-- Run what a statement with the given place and scope does. -/
def formOf (span : Span) (scope : Option String) : Form → Exec Flow
  | .function declaration => do
    declareFunction declaration
    return .goOn
  | .call call => do
    let _ ← callDeclared invoke call
    return .goOn
  | .access access => do
    useField invoke access
    return .goOn
  | .declare name value => do
    declare invoke name value span
    return .goOn
  | .assign (.var name) value => do
    assign invoke name value span
    return .goOn
  | .assign (.field map field) value => do
    assignField invoke map field value span
    return .goOn
  | .returns value => returnValue invoke scope value span
  | .useModule module => do
    modify fun state => { state with imports := state.imports.insert module }
    return .goOn
  | .useFile file program => do
    mergeImports program.imports
    let _ ← decorate (·.inFile file.path file.source) (programOf program)
    return .goOn

/-- Run the statements of a program. -/
def programOf : Program → Exec Flow
  | { statements, .. } => statementsOf statements

/-- Run statements in order, up to one that returns. -/
def statementsOf : List Statement → Exec Flow
  | [] => return .goOn
  | first :: rest => do
    match ← statement first with
    | .goOn => statementsOf rest
    | .returned value => return .returned value

end

/-! ## Bodies -/

/-- The variables that bind the parameters of a function to values, or the reason why not: the first
value that does not have the type its parameter asks for. -/
def bindParams (function : String) (span : Span) (index : Nat) :
    List Param → List Value → Except Error (List Variable)
  | param :: params, value :: values =>
    match param.type with
    | some type =>
      if value.type ≠ type then
        .error (.locate (.argumentType function (index + 1) type value.type) span)
      else do
        return .plain param.name value :: (← bindParams function span (index + 1) params values)
    | none => do
      return .plain param.name value :: (← bindParams function span (index + 1) params values)
  | _, _ => .ok []

/-- Run the body of a function in a scope that holds its parameters and sees the caller's modules. -/
def body (declaration : Declaration) (bound : List Variable) : Exec (Option Value) := do
  let imports := (← get).imports.merge declaration.body.imports
  match ← decorate declaration.claimError
      (inScope (.ofList bound) imports (programOf invoke declaration.body)) with
  | .returned value => return some value
  | .goOn => return none

end Exec

/-- How deep calls of declared functions may nest. -/
def callLimit : Nat := 64

/-- Run a declared function on some values, with the given number of call levels left. -/
def callWithin : (levels : Nat) → Invoke
  | 0, _, _, span => Exec.refuse .stackOverflow span
  | levels + 1, declaration, values, span => do
    if values.length ≠ declaration.arity then
      Exec.refuse
        (.wrongArity declaration.name (toString declaration.arity) values.length) span
    else
      let bound ← Exec.bindParams declaration.name span 0 declaration.params values
      Exec.body (callWithin levels) declaration bound

end Scripting
