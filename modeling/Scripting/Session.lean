import Scripting.Library.Standard
import Scripting.Program.Loader
import Scripting.Run.Statement

/-!
# Sessions and scripts

A session runs programs one after another on one state: what one leaves behind, the next one finds,
also when it failed. Running a script is a session of one program.
-/

namespace Scripting

namespace State

/-- The outcome of a step and the state after it. -/
def run {α : Type} (state : State) (step : Exec α) : Except Error α × State :=
  step.run.run state

/-- Run a program. Its imports come into view before its first statement runs. -/
def execute (state : State) (program : Program) : Except Error Unit × State :=
  state.run do
    Exec.mergeImports program.imports
    let _ ← Exec.programOf (callWithin callLimit) program

/-- Run a declared function on some values, on behalf of a call at the given place. -/
def call (state : State) (declaration : Declaration) (values : List Value) (span : Span) :
    Except Error (Option Value) × State :=
  state.run (callWithin callLimit declaration values span)

/-- The state with nothing but its console kept, and a new scope at the top. -/
def clear (state : State) : State :=
  { console := state.console, scopes := state.scopes.enter }

/-- Load a program and run it. -/
def executeLoaded (state : State) (loaded : Except Error Program) : Except Error Unit × State :=
  match loaded with
  | .ok program => state.execute program
  | .error error => (.error error, state)

end State

/-- Run a text as a script whose imports are looked up in the given directory. -/
def runSource (files : FileTree) (base source : String) (console : Console)
    (order : Order := .rotating) : Except Error Unit × State :=
  let loader : Loader := { registry := Library.standard, files, base }
  ({ console, scopes := { order } } : State).executeLoaded (loader.ofSource source)

/-- Run a script file. Its imports are looked up next to it unless a directory is given, and errors
quote the line that they point at. -/
def runFile (files : FileTree) (path : String) (base? : Option String) (console : Console)
    (order : Order := .rotating) : Except Error Unit × State :=
  let state : State := { console, scopes := { order } }
  match files.readPath path with
  | .error fault =>
    (.error { cause := .io ("cannot read file '" ++ path ++ "': " ++ fault.message) }, state)
  | .ok source =>
    let loader := Loader.forScript { registry := Library.standard, files } path
    let loader := { loader with base := base?.getD loader.base }
    let (result, after) := state.executeLoaded (loader.ofSource source)
    (result.mapError (·.withSource source), after)

end Scripting
