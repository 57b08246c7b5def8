import Scripting.Module.Native

/-!
# Modules

A module is a named table of what it exports: native functions and values.
-/

namespace Scripting

/-- How many arguments a native function takes. -/
inductive Arity where
  | exactly (count : Nat)
  | atLeast (count : Nat)
  deriving DecidableEq

namespace Arity

/-- Whether a call may have the given number of arguments. -/
def accepts : Arity → Nat → Bool
  | exactly n, count => count == n
  | atLeast n, count => n ≤ count

/-- An arity in words. -/
def text : Arity → String
  | exactly n => "exactly " ++ toString n
  | atLeast n => "at least " ++ toString n

end Arity

/-- A native function under its name. -/
structure NativeFunction where
  name : String
  arity : Arity
  body : CallSite → Native (Option Value)

/-- Something that a module exports. -/
inductive Export where
  | function (native : NativeFunction)
  | field (value : Value)

/-- A module. -/
structure Module where
  name : String
  exports : List (String × Export) := []

namespace Module

/-- What the module exports under a name. -/
def export? (module : Module) (name : String) : Option Export :=
  module.exports.lookup name

/-- The module with one more export, which takes the place of an earlier one of the same name. -/
def insert (module : Module) (name : String) (item : Export) : Module :=
  { module with exports := (name, item) :: module.exports.filter (·.1 ≠ name) }

/-- The module with one more function. -/
def withFunction (module : Module) (name : String) (arity : Arity)
    (body : CallSite → Native (Option Value)) : Module :=
  module.insert name (.function { name, arity, body })

/-- The module with one more value. -/
def withField (module : Module) (name : String) (value : Value) : Module :=
  module.insert name (.field value)

end Module

/-- The modules that the host offers. How it finds one is up to the host, but what it finds under a
name has that name. -/
structure Registry where
  resolve? : String → Option Module := fun _ => none
  named : ∀ name module, resolve? name = some module → module.name = name := by simp

namespace Registry

/-- The registry with one more module, which takes the place of an earlier one of the same name. -/
def register (registry : Registry) (module : Module) : Registry where
  resolve? name := if name = module.name then some module else registry.resolve? name
  named name found h := by
    split at h
    · next hname => rw [← Option.some.inj h, hname]
    · exact registry.named name found h

end Registry

end Scripting
