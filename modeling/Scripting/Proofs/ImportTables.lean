import Mathlib.Data.List.Nodup
import Mathlib.Logic.Function.Basic
import Scripting.Module.ImportTable

/-!
# Import tables as ordered sets

An import table is an ordered set of modules in which the first of each name wins. What comes of a
table when modules are put into it one after the other is said by `ImportTable.modules_foldl_insert`:
the modules that were there stay in front, and behind them stands the first of each new name. The
other facts about tables are read off from it.

Several tables may be filled side by side, from modules and from each other. `ImportTable.after` gives
the tables after any such actions, and `ImportTable.arrivals` what was ever put into each of them,
taken up or not.

Main statement: a table shows the first arrival of each name, in the order of arrival, and merging is
the operation of an idempotent monoid on which the search for an export is biased to the left
(`ImportTable.after_first_wins`).
-/

namespace Scripting

namespace ImportTable

/-! ## The modules of a table -/

theorem contains_iff {table : ImportTable} {name : String} :
    table.contains name ↔ name ∈ table.names := by
  simp [contains, names]

theorem mem_of_get? {table : ImportTable} {name : String} {m : Module}
    (h : table.get? name = some m) : m ∈ table.modules := List.mem_of_find?_eq_some h

theorem name_of_get? {table : ImportTable} {name : String} {m : Module}
    (h : table.get? name = some m) : m.name = name := by
  simpa using List.find?_some h

theorem insert_of_mem {table : ImportTable} {module : Module} (h : module.name ∈ table.names) :
    table.insert module = table :=
  if_pos (contains_iff.mpr h)

theorem insert_of_not_mem {table : ImportTable} {module : Module} (h : module.name ∉ table.names) :
    table.insert module = { modules := table.modules ++ [module] } :=
  if_neg fun hcontains => h (contains_iff.mp hcontains)

theorem mem_insert {table : ImportTable} {module m : Module}
    (h : m ∈ (table.insert module).modules) : m ∈ table.modules ∨ m = module := by
  unfold insert at h
  split at h
  · exact .inl h
  · rcases List.mem_append.mp h with h | h
    · exact .inl h
    · exact .inr (List.mem_singleton.mp h)

theorem names_insert (table : ImportTable) (module : Module) :
    (table.insert module).names =
      if module.name ∈ table.names then table.names else table.names ++ [module.name] := by
  by_cases hname : module.name ∈ table.names
  · rw [insert_of_mem hname, if_pos hname]
  · rw [insert_of_not_mem hname, if_neg hname]
    simp [names]

theorem get?_insert (table : ImportTable) (module : Module) (name : String) :
    (table.insert module).get? name =
      (table.get? name).or (if module.name = name then some module else none) := by
  by_cases hname : module.name ∈ table.names
  · rw [insert_of_mem hname]
    split
    · next heq =>
      obtain ⟨known, hknown, hsame⟩ := List.mem_map.mp hname
      have hfound : (table.get? name).isSome := by
        rw [get?, List.find?_isSome]
        exact ⟨known, hknown, by simpa using hsame.trans heq⟩
      obtain ⟨found, hget⟩ := Option.isSome_iff_exists.mp hfound
      rw [hget, Option.some_or]
    · rw [Option.or_none]
  · rw [insert_of_not_mem hname, get?, get?, List.find?_append, List.find?_singleton]
    simp only [decide_eq_true_eq]

/-! ## The first of each name -/

/-- The modules of a list without those whose names occur before. -/
def firsts (modules : List Module) : List Module :=
  modules.eraseDupsBy (·.name == ·.name)

theorem firsts_cons (module : Module) (modules : List Module) :
    firsts (module :: modules) = module :: firsts (modules.filter (!·.name == module.name)) := by
  rw [firsts, List.eraseDupsBy_cons, firsts]
  congr 3
  funext other
  cases other.name == module.name <;> rfl

theorem map_name_firsts (modules : List Module) :
    (firsts modules).map Module.name = (modules.map Module.name).eraseDups := by
  match modules with
  | [] => rfl
  | module :: modules =>
    have hlength := List.length_filter_le (!·.name == module.name) modules
    rw [firsts_cons, List.map_cons, List.map_cons, List.eraseDups_cons, map_name_firsts,
      List.filter_map]
    rfl
termination_by modules.length
decreasing_by
  rw [List.length_cons]
  omega

theorem firsts_of_nodup {modules : List Module} (h : (modules.map Module.name).Nodup) :
    firsts modules = modules := by
  induction modules with
  | nil => rfl
  | cons module modules ih =>
    obtain ⟨hmodule, hmodules⟩ := List.nodup_cons.mp h
    have hothers : modules.filter (!·.name == module.name) = modules := by
      refine List.filter_eq_self.mpr fun other hother => ?_
      have hne : other.name ≠ module.name := fun heq => hmodule (heq ▸ List.mem_map_of_mem hother)
      simpa using hne
    rw [firsts_cons, hothers, ih hmodules]

/-- Put into a table, modules whose names are new come behind those that are there, the first of each
name. -/
theorem modules_foldl_insert (modules : List Module) (table : ImportTable) :
    (modules.foldl insert table).modules =
      table.modules ++ firsts (modules.filter fun module => !table.contains module.name) := by
  induction modules generalizing table with
  | nil => exact (List.append_nil _).symm
  | cons module modules ih =>
    rw [List.foldl_cons, ih]
    by_cases hname : module.name ∈ table.names
    · rw [insert_of_mem hname,
        List.filter_cons_of_neg (by simpa using contains_iff.mpr hname)]
    · have hnew : (!table.contains module.name) = true := by
        simpa using fun h => hname (contains_iff.mp h)
      have hfilter : modules.filter (fun m => !(table.insert module).contains m.name) =
          (modules.filter fun m => !table.contains m.name).filter (!·.name == module.name) := by
        rw [List.filter_filter]
        refine List.filter_congr fun other _ => ?_
        rw [insert_of_not_mem hname]
        unfold contains
        rw [List.any_append]
        simp [Bool.and_comm, Bool.beq_eq_decide_eq, eq_comm]
      rw [hfilter, insert_of_not_mem hname,
        List.filter_cons_of_pos (p := fun m : Module => !table.contains m.name) hnew, firsts_cons,
        List.append_assoc, List.singleton_append]

theorem get?_foldl_insert (modules : List Module) (table : ImportTable) (name : String) :
    (modules.foldl insert table).get? name =
      (table.get? name).or (modules.find? (·.name = name)) := by
  induction modules generalizing table with
  | nil => rw [List.foldl_nil, List.find?_nil, Option.or_none]
  | cons module modules ih =>
    rw [List.foldl_cons, ih, get?_insert, Option.or_assoc, List.find?_cons]
    by_cases hname : module.name = name <;> simp [hname]

theorem mem_foldl_insert {modules : List Module} {table : ImportTable} {m : Module}
    (h : m ∈ (modules.foldl insert table).modules) : m ∈ table.modules ∨ m ∈ modules := by
  induction modules generalizing table with
  | nil => exact .inl h
  | cons module modules ih =>
    rcases ih h with h | h
    · rcases mem_insert h with h | rfl
      · exact .inl h
      · exact .inr List.mem_cons_self
    · exact .inr (List.mem_cons_of_mem _ h)

theorem mem_merge {table other : ImportTable} {m : Module} (h : m ∈ (table.merge other).modules) :
    m ∈ table.modules ∨ m ∈ other.modules := mem_foldl_insert h

/-- The names that are new come behind those that are there, each at its first occurrence. -/
theorem names_foldl_insert (modules : List Module) (table : ImportTable) :
    (modules.foldl insert table).names =
      table.names ++ ((modules.map Module.name).filter (· ∉ table.names)).eraseDups := by
  rw [names, modules_foldl_insert, List.map_append, map_name_firsts, List.filter_map]
  congr 4
  funext module
  simp [← contains_iff]

theorem names_subset_foldl_insert (table : ImportTable) (modules : List Module) :
    table.names ⊆ (modules.foldl insert table).names := by
  rw [names_foldl_insert]
  exact List.subset_append_left _ _

theorem mem_names_foldl_insert {table : ImportTable} {modules : List Module} {module : Module}
    (h : module ∈ modules) : module.name ∈ (modules.foldl insert table).names := by
  rw [names_foldl_insert, List.mem_append, List.mem_eraseDups, List.mem_filter]
  by_cases hname : module.name ∈ table.names
  · exact .inl hname
  · exact .inr ⟨List.mem_map_of_mem h, by simpa using hname⟩

theorem nodup_names_foldl_insert (modules : List Module) {table : ImportTable}
    (h : table.names.Nodup) : (modules.foldl insert table).names.Nodup := by
  induction modules generalizing table with
  | nil => exact h
  | cons module modules ih =>
    refine ih ?_
    rw [names_insert]
    split
    · exact h
    · next hnew =>
      exact h.append (List.nodup_singleton _) (List.disjoint_singleton.mpr hnew)

/-- What is in the table stays in front. -/
theorem prefix_foldl_insert (table : ImportTable) (modules : List Module) :
    table.modules <+: (modules.foldl insert table).modules := by
  rw [modules_foldl_insert]
  exact List.prefix_append _ _

/-! ## Merging -/

/-- Behind the modules of a table come those of the other one whose names are new, in their order. -/
theorem modules_merge_of_nodup (table : ImportTable) {other : ImportTable} (h : other.names.Nodup) :
    (table.merge other).modules =
      table.modules ++ other.modules.filter fun module => !table.contains module.name := by
  rw [merge, modules_foldl_insert, firsts_of_nodup]
  exact h.sublist (List.filter_sublist.map Module.name)

/-- Modules that are listed in a table before they come in do not come in twice anyway. -/
theorem merge_foldl_insert (table start : ImportTable) (modules : List Module) :
    table.merge (modules.foldl insert start) = modules.foldl insert (table.merge start) := by
  induction modules generalizing start with
  | nil => rfl
  | cons module modules ih =>
    rw [List.foldl_cons, List.foldl_cons, ih]
    congr 1
    by_cases hname : module.name ∈ start.names
    · rw [insert_of_mem hname]
      obtain ⟨other, hother, heq⟩ := List.mem_map.mp hname
      have hmem : other.name ∈ (table.merge start).names := mem_names_foldl_insert hother
      rw [heq] at hmem
      rw [insert_of_mem hmem]
    · rw [insert_of_not_mem hname]
      exact List.foldl_append

theorem merge_assoc (a b c : ImportTable) : (a.merge b).merge c = a.merge (b.merge c) :=
  (merge_foldl_insert a b c.modules).symm

/-- Modules whose names are all there change nothing. -/
theorem foldl_insert_of_subset {table : ImportTable} {modules : List Module}
    (h : modules.map Module.name ⊆ table.names) : modules.foldl insert table = table := by
  induction modules with
  | nil => rfl
  | cons module modules ih =>
    rw [List.map_cons, List.cons_subset] at h
    rw [List.foldl_cons, insert_of_mem h.1, ih h.2]

theorem merge_of_prefix {table extension : ImportTable}
    (h : table.modules <+: extension.modules) : extension.merge table = extension :=
  foldl_insert_of_subset (List.map_subset _ h.subset)

/-- The table without the modules whose names another table has. -/
def without (table other : ImportTable) : ImportTable where
  modules := table.modules.filter fun module => !other.contains module.name

theorem findExport?_merge (table : ImportTable) {other : ImportTable} (h : other.names.Nodup)
    (symbol : String) :
    (table.merge other).findExport? symbol =
      (table.findExport? symbol).or ((other.without table).findExport? symbol) := by
  rw [findExport?, modules_merge_of_nodup table h, List.findSome?_append]
  rfl

/-! ## Several tables -/

/-- Something that is done to one of several tables. -/
inductive Action (ι : Type) where
  | insert (table : ι) (module : Module)
  | merge (table other : ι)

section Tables

variable {ι : Type} [DecidableEq ι]

/-- The tables after one more action. -/
def Action.run (tables : ι → ImportTable) : Action ι → ι → ImportTable
  | insert table module => Function.update tables table ((tables table).insert module)
  | merge table other => Function.update tables table ((tables table).merge (tables other))

/-- The tables after the actions, all of them being empty before. -/
def after (actions : List (Action ι)) : ι → ImportTable :=
  actions.foldl Action.run fun _ => {}

/-- The table that the action changes. -/
def Action.target : Action ι → ι
  | insert table _ | merge table _ => table

/-- The modules that the action puts into its table, given what each table has to pass on. -/
def Action.offers (held : ι → List Module) : Action ι → List Module
  | insert _ module => [module]
  | merge _ other => held other

/-- What has arrived at each table, after one more action. A table passes on whatever arrived at
it. -/
def Action.record (arrived : ι → List Module) (action : Action ι) : ι → List Module :=
  Function.update arrived action.target (arrived action.target ++ action.offers arrived)

/-- The modules that arrive at each table in the course of the actions, from the first to the last,
whether or not their names are free. -/
def arrivals (actions : List (Action ι)) : ι → List Module :=
  actions.foldl Action.record fun _ => []

theorem Action.run_eq_update (tables : ι → ImportTable) (action : Action ι) :
    action.run tables =
      Function.update tables action.target
        ((action.offers fun i => (tables i).modules).foldl ImportTable.insert
          (tables action.target)) := by
  cases action <;> rfl

/-- An action keeps the tables in step with what has arrived at them. -/
theorem Action.run_eq_foldl_insert {tables : ι → ImportTable} {arrived : ι → List Module}
    (h : ∀ i, tables i = (arrived i).foldl ImportTable.insert {}) (action : Action ι) (i : ι) :
    action.run tables i = (action.record arrived i).foldl ImportTable.insert {} := by
  rw [run_eq_update, record]
  by_cases hi : i = action.target
  · rw [hi, Function.update_self, Function.update_self, List.foldl_append, ← h]
    cases action with
    | insert table module => rfl
    | merge table other =>
      -- what the other table did not take up is not taken up here either
      have hmerge := merge_foldl_insert (tables table) {} (arrived other)
      rw [← h] at hmerge
      exact hmerge
  · rw [Function.update_of_ne hi, Function.update_of_ne hi, h]

/-- The modules of a table might as well have been put into it one by one, as they arrived. -/
theorem after_eq_foldl_insert (actions : List (Action ι)) (i : ι) :
    after actions i = (arrivals actions i).foldl ImportTable.insert {} := by
  have hrun : ∀ (actions : List (Action ι)) (tables : ι → ImportTable) (arrived : ι → List Module),
      (∀ i, tables i = (arrived i).foldl ImportTable.insert {}) → ∀ i,
      actions.foldl Action.run tables i =
        (actions.foldl Action.record arrived i).foldl ImportTable.insert {} := by
    intro actions
    induction actions with
    | nil => exact fun _ _ h => h
    | cons action actions ih => exact fun _ _ h => ih _ _ (action.run_eq_foldl_insert h)
  exact hrun actions (fun _ => {}) (fun _ => []) (fun _ => rfl) i

/-- An action leaves what is in a table in front. -/
theorem Action.prefix_run (tables : ι → ImportTable) (action : Action ι) (i : ι) :
    (tables i).modules <+: (action.run tables i).modules := by
  rw [run_eq_update]
  by_cases hi : i = action.target
  · rw [hi, Function.update_self]
    exact prefix_foldl_insert _ _
  · exact Function.update_of_ne hi _ tables ▸ List.prefix_refl _

theorem prefix_after (actions more : List (Action ι)) (i : ι) :
    (after actions i).modules <+: (after (actions ++ more) i).modules := by
  unfold after
  rw [List.foldl_append]
  generalize actions.foldl Action.run _ = tables
  induction more generalizing tables with
  | nil => exact List.prefix_refl _
  | cons action more ih => exact (action.prefix_run tables i).trans (ih _)

/-- Import tables are ordered sets in which the first module of a name wins.

Let any number of tables be filled, from nothing, with modules and from each other, in any order. The
names in a table are distinct. A table lists the first arrival of each name, in the order of arrival,
and under a name it is the first arrival that is found. Merging is associative and idempotent, and
what a table had before, or any table that it extends, adds nothing to it. An export is looked for in
the one table first and then in the other, but there only in modules whose names the one table does
not have. -/
theorem after_first_wins (actions : List (Action ι)) (i j k : ι) :
    (after actions i).names.Nodup ∧
    (after actions i).modules = firsts (arrivals actions i) ∧
    (∀ name, (after actions i).get? name = (arrivals actions i).find? (·.name = name)) ∧
    ((after actions i).merge (after actions j)).merge (after actions k) =
      (after actions i).merge ((after actions j).merge (after actions k)) ∧
    (after actions i).merge (after actions i) = after actions i ∧
    (∀ extension : ImportTable, (after actions i).modules <+: extension.modules →
      extension.merge (after actions i) = extension) ∧
    (∀ more, (after (actions ++ more) i).merge (after actions i) = after (actions ++ more) i) ∧
    ∀ symbol, ((after actions i).merge (after actions j)).findExport? symbol =
      ((after actions i).findExport? symbol).or
        (((after actions j).without (after actions i)).findExport? symbol) := by
  have hnodup : ∀ i, (after actions i).names.Nodup := by
    intro i
    rw [after_eq_foldl_insert]
    exact nodup_names_foldl_insert _ List.nodup_nil
  refine ⟨hnodup i, ?_, ?_, merge_assoc _ _ _, merge_of_prefix (List.prefix_refl _),
    fun extension => merge_of_prefix, fun more => merge_of_prefix (prefix_after actions more i),
    findExport?_merge _ (hnodup j)⟩
  · rw [after_eq_foldl_insert, modules_foldl_insert, List.nil_append]
    exact congrArg firsts (List.filter_eq_self.mpr fun _ _ => rfl)
  · intro name
    rw [after_eq_foldl_insert, get?_foldl_insert]
    rfl

end Tables

end ImportTable

end Scripting
