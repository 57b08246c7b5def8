import Scripting.Module.Basic

/-!
# Import tables

The modules that a program or a scope sees, in the order in which they came in. A name comes in only
once: the first module under a name stays, and later ones change nothing.
-/

namespace Scripting

/-- The modules in view, in the order of their arrival. -/
structure ImportTable where
  modules : List Module := []

namespace ImportTable

/-- The module of a name. -/
def get? (table : ImportTable) (name : String) : Option Module :=
  table.modules.find? (·.name = name)

/-- Whether a module of the given name is in view. -/
def contains (table : ImportTable) (name : String) : Bool :=
  table.modules.any (·.name = name)

/-- The table with one more module, unless its name is taken. -/
def insert (table : ImportTable) (module : Module) : ImportTable :=
  if table.contains module.name then table else { modules := table.modules ++ [module] }

/-- The table with the modules of another one, in their order, as far as their names are free. -/
def merge (table other : ImportTable) : ImportTable :=
  other.modules.foldl insert table

/-- The first module in view that exports a name, and what it exports under it. -/
def findExport? (table : ImportTable) (name : String) : Option (Module × Export) :=
  table.modules.findSome? fun module => (module.export? name).map fun item => (module, item)

/-- The names of the modules in view. -/
def names (table : ImportTable) : List String :=
  table.modules.map Module.name

end ImportTable

end Scripting
