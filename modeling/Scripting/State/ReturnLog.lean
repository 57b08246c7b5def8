import Scripting.State.Cells

/-!
# The return log

Every call or return that gives a value leaves a record in the log: under which name it ran, in which
cell its value is, and which variables can be used to refer to it. All scopes share one log, and a
name that means nothing else is looked up there, latest record first.
-/

namespace Scripting

/-- A value that was returned. The owner is the variable that captured it; the aliases are variables
that were bound to it later. -/
structure Record where
  name : String
  cell : Cell
  owner : Option String
  aliases : List String := []
  span : Span
  deriving DecidableEq

namespace Record

/-- Whether the record can be referred to by a name. -/
def answersTo (record : Record) (name : String) : Bool :=
  record.owner = some name || record.aliases.contains name

/-- The record, answering to one more name. -/
def addAlias (record : Record) (name : String) : Record :=
  if record.answersTo name then record else { record with aliases := record.aliases ++ [name] }

/-- The record, no longer answering to a name. -/
def release (record : Record) (name : String) : Record :=
  { record with
    owner := if record.owner = some name then none else record.owner
    aliases := record.aliases.filter (· ≠ name) }

end Record

/-- The records made so far, latest first. -/
structure ReturnLog where
  latestFirst : List Record := []

namespace ReturnLog

/-- The records in the order in which they were made. -/
def toList (log : ReturnLog) : List Record :=
  log.latestFirst.reverse

/-- The number of records. -/
def size (log : ReturnLog) : Nat :=
  log.latestFirst.length

/-- The log with one more record. -/
def push (log : ReturnLog) (record : Record) : ReturnLog :=
  { latestFirst := record :: log.latestFirst }

@[simp] theorem toList_push (log : ReturnLog) (record : Record) :
    (log.push record).toList = log.toList ++ [record] := by
  simp [push, toList]

/-- The latest record that answers to a name. -/
def find? (log : ReturnLog) (name : String) : Option Record :=
  log.latestFirst.find? (·.answersTo name)

/-- The records with the first one that holds a cell answering to one more name. -/
def addAliasTo (cell : Cell) (name : String) : List Record → List Record
  | [] => []
  | record :: records =>
    if record.cell = cell then record.addAlias name :: records
    else record :: addAliasTo cell name records

/-- The log with the latest record that holds a cell answering to one more name. -/
def addAlias (log : ReturnLog) (cell : Cell) (name : String) : ReturnLog :=
  { latestFirst := addAliasTo cell name log.latestFirst }

/-- Whether some record holds a cell and answers to a name. -/
def binds (log : ReturnLog) (cell : Cell) (name : String) : Bool :=
  log.latestFirst.any fun record => record.cell = cell && record.answersTo name

/-- The log in which the records that hold a cell no longer answer to a name. -/
def release (log : ReturnLog) (cell : Cell) (name : String) : ReturnLog :=
  { latestFirst := log.latestFirst.map fun record =>
      if record.cell = cell then record.release name else record }

end ReturnLog

end Scripting
