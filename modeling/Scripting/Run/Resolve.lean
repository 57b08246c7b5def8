import Scripting.State.Basic

/-!
# What names mean

A name stands for a variable of the running scope, else for the latest record of the return log that
answers to it, else for a declared function, else for what some module in view exports under it, else
for a field of some map that a variable holds. A variable that is bound to a cell and a record both
lead to the cell, so that a new variable can share the result instead of copying it.
-/

namespace Scripting

/-- What a name stands for: a value, or the result in a cell. -/
inductive Meaning where
  | value (value : Value)
  | cell (cell : Cell)

namespace State

/-- What a name stands for in the running scope as a variable, if it is one with something to give. -/
def variableMeaning? (state : State) (name : String) : Option Meaning := do
  let v ← state.vars.get? name
  match v.cell with
  | some cell => return .cell cell
  | none => return .value (← v.peek state.cells)

/-- What a name stands for by what some module in view exports. -/
def exportMeaning? (state : State) (name : String) : Option Meaning := do
  let (module, item) ← state.imports.findExport? name
  match item with
  | .field value => return .value value
  | .function _ => return .value (.function { module := some module.name, name })

/-- What a name stands for by itself, and not as a field of a map. -/
def plainMeaning? (state : State) (name : String) : Option Meaning :=
  state.variableMeaning? name
    <|> (state.log.find? name).map (.cell ·.cell)
    <|> (state.function? name).map (fun _ => .value (.function { module := none, name }))
    <|> state.exportMeaning? name

/-- What a name stands for. -/
def meaning? (state : State) (name : String) : Option Meaning :=
  state.plainMeaning? name
    <|> (state.vars.findField? state.cells name state.scopes).map .value

end State

namespace Exec

/-- What a token that is a name stands for. -/
def meaning (token : Token) : Exec Meaning := do
  match (← get).meaning? token.lexeme with
  | some meaning => return meaning
  | none => refuse (.notFound token.lexeme) token.span

/-- The value of a name. A variable is read, which takes its result out of the cell. -/
def nameValue (token : Token) : Exec Value := do
  if (← get).vars.contains token.lexeme then
    decorate (·.orAt token.span) (readVariable token.lexeme)
  else
    match ← meaning token with
    | .value value => return value
    | .cell cell =>
      match (← get).cells.get? cell with
      | some value => return value
      | none => refuse (.unresolvedCall token.lexeme) token.span

/-- The value of an argument: a literal or a name. -/
def operand (token : Token) : Exec Value := do
  match token.kind with
  | .string | .number | .boolean => Value.ofLiteral token
  | .identifier => nameValue token
  | _ => refuse (.expectedValue token.lexeme) token.span

/-- The values of some arguments, from left to right. -/
def operands : List Token → Exec (List Value)
  | [] => return []
  | token :: tokens => do
    let first ← operand token
    let rest ← operands tokens
    return first :: rest

/-- The declared function that an argument names. -/
def callback (token : Token) : Exec Declaration := do
  match ← operand token with
  | .function { module := none, name } =>
    match (← get).function? name with
    | some declaration => return declaration
    | none => refuse (.undefinedFunction name) token.span
  | _ =>
    refuse (.runtime ("\"" ++ token.lexeme ++ "\" is not a declared function")) token.span

/-- The variable that binding `name` to the meaning of a token makes. Binding to a result makes its
record answer to the name as well. -/
def reference (name : String) (token : Token) : Exec Variable := do
  match ← meaning token with
  | .value value => return .plain name value
  | .cell cell =>
    modify fun state => { state with log := state.log.addAlias cell name }
    return .ofCell name cell

end Exec

end Scripting
