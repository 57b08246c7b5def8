import Scripting.Program.Basic
import Scripting.State.Console
import Scripting.State.ReturnLog
import Scripting.State.Variables

/-!
# States of a run

A state has a part that belongs to the scope that is running, its variables and its import table,
and a part that all scopes share: the result cells, the declared functions, the return log, the
console and the count of the scopes. Steps of a run pass the state on whether they succeed or fail,
so a failure leaves behind everything that was done before it.
-/

namespace Scripting

/-- The state of a run. -/
structure State where
  vars : Variables := {}
  imports : ImportTable := {}
  cells : Cells := {}
  functions : List Declaration := []
  log : ReturnLog := {}
  console : Console := {}
  scopes : Scopes := {}

namespace State

/-- The declared function of a name. -/
def function? (state : State) (name : String) : Option Declaration :=
  state.functions.find? (·.name = name)

/-- The state at the start of a new scope. -/
def nest (state : State) (vars : Variables) (imports : ImportTable) : State :=
  { state with vars, imports, scopes := state.scopes.enter }

/-- The state in which a scope goes on after one that was nested in it has ended in `inner`. What
all scopes share is kept. -/
def resume (state inner : State) : State :=
  { inner with
    vars := state.vars, imports := state.imports, scopes := inner.scopes.leave state.scopes }

end State

/-- A step of a run. -/
abbrev Exec := ExceptT Error (StateM State)

namespace Exec

variable {α : Type}

/-- Fail at a place. -/
def refuse (cause : Cause) (span : Span) : Exec α :=
  throw (.locate cause span)

/-- The step, with its error changed if it fails. -/
def decorate (f : Error → Error) (step : Exec α) : Exec α :=
  ExceptT.adapt f step

/-- The step; if it fails, `undo` repairs the state and the error goes on. -/
def orUndo (step : Exec α) (undo : State → State) : Exec α :=
  tryCatch step fun error => do
    modify undo
    throw error

/-- The step in a scope of its own, which is dropped afterwards. -/
def inScope (vars : Variables) (imports : ImportTable) (step : Exec α) : Exec α := fun state =>
  let (result, after) := step (state.nest vars imports)
  (result, state.resume after)

/-- Make a cell with the given content. -/
def makeCell (content : Option Value) : Exec Cell :=
  modifyGet fun state => (state.cells.fresh, { state with cells := state.cells.add content })

/-- Append a record to the log. -/
def pushRecord (record : Record) : Exec Unit :=
  modify fun state => { state with log := state.log.push record }

/-- Replace the variable of the same name. -/
def replaceVariable (v : Variable) : Exec Unit :=
  modify fun state => { state with vars := state.vars.replace v }

/-- Declare a variable. -/
def declareVariable (v : Variable) : Exec Unit := do
  let vars ← (← get).vars.declare v
  modify fun state => { state with vars }

/-- Give an existing variable a value. -/
def assignVariable (name : String) (value : Value) : Exec Unit := do
  let vars ← (← get).vars.assign name value
  modify fun state => { state with vars }

/-- Read a variable. -/
def readVariable (name : String) : Exec Value := do
  let state ← get
  let (value, vars) ← state.vars.read state.cells name
  modify fun state => { state with vars }
  return value

end Exec

end Scripting
