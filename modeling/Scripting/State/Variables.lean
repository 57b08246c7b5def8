import Scripting.State.Cells
import Scripting.State.Scopes

/-!
# Variables

A variable holds a value or stands for the result in a cell. Reading a variable that stands for a
result takes the result out of the cell once and for all: from then on the variable holds it as a
value, but remembers the cell that it came from until it is given another value.
-/

namespace Scripting

/-- What a variable holds. -/
inductive Slot where
  | ready (value : Value)
  | alias (cell : Cell)

/-- A variable: its name, what it holds, and the cell that it is bound to, read or not. -/
structure Variable where
  name : String
  slot : Slot
  cell : Option Cell

namespace Variable

/-- A variable that holds a value. -/
def plain (name : String) (value : Value) : Variable :=
  { name, slot := .ready value, cell := none }

/-- A variable that stands for the result in a cell. -/
def ofCell (name : String) (cell : Cell) : Variable :=
  { name, slot := .alias cell, cell := some cell }

/-- Whether the variable has not been read since it was bound to a cell. -/
def isAlias (v : Variable) : Bool :=
  match v.slot with
  | .alias _ => true
  | .ready _ => false

/-- The value that reading the variable would give. -/
def peek (cells : Cells) (v : Variable) : Option Value :=
  match v.slot with
  | .ready value => some value
  | .alias cell => cells.get? cell

/-- The type of the value that reading the variable would give. -/
def type? (cells : Cells) (v : Variable) : Option ValueType :=
  (v.peek cells).map Value.type

/-- The field of a name in the map that reading the variable would give. -/
def field? (cells : Cells) (field : String) (v : Variable) : Option Value :=
  match v.peek cells with
  | some (.map fields) => Fields.get? fields field
  | _ => none

/-- The variable after a read that gave `value`. -/
def settle (v : Variable) (value : Value) : Variable :=
  { v with slot := .ready value }

end Variable

/-- The variables of a scope, at most one for each name, latest first. -/
structure Variables where
  entries : List Variable := []

namespace Variables

/-- The variable of a name. -/
def get? (vars : Variables) (name : String) : Option Variable :=
  vars.entries.find? (·.name = name)

/-- Whether there is a variable of a name. -/
def contains (vars : Variables) (name : String) : Bool :=
  vars.entries.any (·.name = name)

/-- The variables with the one of the same name replaced. -/
def replace (vars : Variables) (v : Variable) : Variables :=
  { entries := vars.entries.map fun old => if old.name = v.name then v else old }

/-- The variables with one set, whether or not there is one of its name. -/
def put (vars : Variables) (v : Variable) : Variables :=
  if vars.contains v.name then vars.replace v
  else { entries := v :: vars.entries }

/-- The variables of a list, the later of two equal names winning. -/
def ofList (vars : List Variable) : Variables :=
  vars.foldl put {}

/-- The variables without the one of a name. -/
def remove (vars : Variables) (name : String) : Variables :=
  { entries := vars.entries.filter (·.name ≠ name) }

/-- The variables with a new one. -/
def declare (vars : Variables) (v : Variable) : Except Error Variables :=
  if vars.contains v.name then .error { cause := .alreadyDeclared v.name }
  else .ok { entries := v :: vars.entries }

/-- The value of a variable, and the variables after it has been read. -/
def read (cells : Cells) (vars : Variables) (name : String) :
    Except Error (Value × Variables) :=
  match vars.get? name with
  | none => .error { cause := .undefinedVariable name }
  | some v =>
    match v.peek cells with
    | none => .error { cause := .unresolvedCall name }
    | some value => .ok (value, vars.replace (v.settle value))

/-- The variables with an existing one given a value, which drops its cell. -/
def assign (vars : Variables) (name : String) (value : Value) : Except Error Variables :=
  if vars.contains name then .ok (vars.replace (.plain name value))
  else .error { cause := .undefinedVariable name }

/-- The names of the variables. -/
def names (vars : Variables) : List String :=
  vars.entries.map Variable.name

/-- The field of the given name in the first variable that holds a map with one. -/
def findField? (cells : Cells) (vars : Variables) (field : String) (scopes : Scopes := {}) :
    Option Value :=
  (scopes.arrange cells.contents.size vars.names).findSome? fun name =>
    (vars.get? name).bind (·.field? cells field)

end Variables

end Scripting
