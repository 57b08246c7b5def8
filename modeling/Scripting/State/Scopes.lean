/-!
# Scopes

A run has a scope at its top and makes a new one for each call. A scope keeps its variables in a
table of its own, and the order in which a table is gone through is up to the platform: two tables
may have different orders even if they hold the same variables, and a table may change its order as
results come in. The only thing that goes through a table is the search for a map with a field of a
given name.
-/

namespace Scripting

/-- The orders in which the tables of a run are gone through, by the number of the scope, how many
results there are so far, and the names in the table. -/
structure Order where
  arrange : (scope results : Nat) → List String → List String
  perm : ∀ scope results names, (arrange scope results names).Perm names

namespace Order

/-- Each scope starts with another variable: the one at the top with its latest, the next scope with
the one before, and so on. -/
def rotating : Order where
  arrange scope _ names := names.drop (scope % names.length) ++ names.take (scope % names.length)
  perm scope _ names := by
    refine List.perm_append_comm.trans ?_
    rw [List.take_append_drop]

end Order

/-- The scopes of a run: the orders of their tables, the number of the one that is running, and how
many have been entered. -/
structure Scopes where
  order : Order := .rotating
  running : Nat := 0
  entered : Nat := 0

namespace Scopes

/-- The scopes with a new one running. -/
def enter (scopes : Scopes) : Scopes :=
  { scopes with running := scopes.entered + 1, entered := scopes.entered + 1 }

/-- The scopes after the running one has ended in favour of the one that ran before. -/
def leave (scopes before : Scopes) : Scopes :=
  { scopes with running := before.running }

/-- The names of a table in the order in which it is gone through. -/
def arrange (scopes : Scopes) (results : Nat) (names : List String) : List String :=
  scopes.order.arrange scopes.running results names

end Scopes

end Scripting
