import Scripting.Proofs.Evaluation

/-!
# Reads are snapshots

The variables of a scope and the cells that they are bound to can be used in any order: cells are
made and filled, any of them any number of times, and variables are declared, assigned, bound anew,
read, looked at and removed. `Scope.Action` is one such use. It is carried out by the steps of which
runs consist, and `Scope.History.state` is where any number of them lead to.

What a variable shows is told here by the history alone. A variable that is bound to a cell goes with
the cell, until it is read with success for the first time since it was bound. From then on it keeps
what was read, whatever the cell is filled with, until it is bound again. The cell that it is bound to
is that of its last binding. Variables that an action does not name are left alone, except that
filling a cell shows in those that have not been read since they were bound to it.

Main statement: `Scope.History.reads_are_snapshots`. What one action does to the variable of a name is
said once (`Scope.Action.get?_vars`), and the histories are gone through by induction from the first
action on.
-/

namespace Scripting

/-! ## Tables of variables -/

/-- The variable after an attempt to read it. -/
def Variable.settled (cells : Cells) (v : Variable) : Variable :=
  (v.peek cells).elim v v.settle

namespace Variables

variable (vars : Variables) (v : Variable) (name : String)

variable {vars v} in
theorem replace_of_not_contains (h : vars.contains v.name = false) : vars.replace v = vars := by
  unfold replace
  rw [List.map_congr_left (g := id), List.map_id]
  intro old hold
  have hne : old.name ≠ v.name := by
    rw [contains, List.any_eq_false] at h
    simpa using h old hold
  exact if_neg hne

theorem names_replace :
    (vars.replace v).entries.map Variable.name = vars.entries.map Variable.name := by
  unfold replace
  rw [List.map_map]
  refine List.map_congr_left fun old _ => ?_
  rw [Function.comp_apply]
  split
  · next hname => exact hname.symm
  · rfl

theorem get?_declare :
    ((vars.declare v).toOption.getD vars).get? name =
      if v.name = name then (vars.get? name).or (some v) else vars.get? name := by
  unfold declare
  by_cases hcontains : vars.contains v.name
  · rw [if_pos hcontains]
    split
    · next hname =>
      rw [contains_eq_isSome, hname] at hcontains
      obtain ⟨w, hw⟩ := Option.isSome_iff_exists.mp hcontains
      simp [hw, Except.toOption]
    · rfl
  · rw [if_neg hcontains]
    refine (get?_cons v vars.entries name).trans ?_
    split
    · next hname =>
      rw [hname] at hcontains
      rw [get?_eq_none_of_contains (by simpa using hcontains), Option.none_or]
    · rfl

variable {vars} in
theorem nodup_names_declare (h : (vars.entries.map Variable.name).Nodup) (v : Variable) :
    (((vars.declare v).toOption.getD vars).entries.map Variable.name).Nodup := by
  unfold declare
  by_cases hcontains : vars.contains v.name
  · rw [if_pos hcontains]
    exact h
  · rw [if_neg hcontains]
    refine List.nodup_cons.mpr ⟨fun hmem => hcontains ?_, h⟩
    obtain ⟨old, hold, hname⟩ := List.mem_map.mp hmem
    rw [contains, List.any_eq_true]
    exact ⟨old, hold, by simpa using hname⟩

/-- Reading fails if there is no variable or nothing to be seen of it, and otherwise gives what is to
be seen. -/
theorem read_cases (cells : Cells) :
    (vars.get? name = none ∧ vars.read cells name = .error { cause := .undefinedVariable name }) ∨
    (∃ v, vars.get? name = some v ∧ v.peek cells = none ∧
      vars.read cells name = .error { cause := .unresolvedCall name }) ∨
    ∃ v value, vars.get? name = some v ∧ v.peek cells = some value ∧
      vars.read cells name = .ok (value, vars.replace (v.settle value)) := by
  unfold read
  cases hget : vars.get? name with
  | none => exact .inl ⟨rfl, rfl⟩
  | some v =>
    cases hpeek : v.peek cells with
    | none => exact .inr (.inl ⟨v, rfl, hpeek, by simp only [hpeek]⟩)
    | some value => exact .inr (.inr ⟨v, value, rfl, hpeek, by simp only [hpeek]⟩)

theorem get?_read (cells : Cells) (other : String) :
    (((vars.read cells other).map Prod.snd).toOption.getD vars).get? name =
      if other = name then (vars.get? name).map (·.settled cells) else vars.get? name := by
  rcases vars.read_cases other cells with
    ⟨hget, hread⟩ | ⟨v, hget, hpeek, hread⟩ | ⟨v, value, hget, hpeek, hread⟩
  · rw [hread]
    split
    · next hname =>
      rw [← hname, hget]
      exact hget
    · rfl
  · rw [hread]
    split
    · next hname =>
      rw [← hname, hget, Option.map_some, Variable.settled, hpeek]
      exact hget
    · rfl
  · have hreplace := vars.get?_replace (v.settle value) name
    rw [Variable.name_settle, name_of_get? hget] at hreplace
    rw [hread]
    refine hreplace.trans ?_
    by_cases hname : other = name
    · rw [if_pos hname, if_pos hname.symm, ← hname, hget, Option.map_some, Option.map_some,
        Variable.settled, hpeek]
      rfl
    · rw [if_neg hname, if_neg (Ne.symm hname)]

theorem names_read (cells : Cells) :
    (((vars.read cells name).map Prod.snd).toOption.getD vars).entries.map Variable.name =
      vars.entries.map Variable.name := by
  rcases vars.read_cases name cells with
    ⟨-, hread⟩ | ⟨-, -, -, hread⟩ | ⟨v, value, -, -, hread⟩
  · rw [hread]
    rfl
  · rw [hread]
    rfl
  · rw [hread]
    exact vars.names_replace (v.settle value)

end Variables

namespace Scope

/-! ## Actions -/

/-- A use of the cells or of the variables of a scope. -/
inductive Action where
  /-- Make a cell, empty or with a result in it. -/
  | make (content : Option Value)
  | fill (cell : Cell) (value : Value)
  /-- Declare a variable that holds a value. -/
  | declare (name : String) (value : Value)
  /-- Declare a variable that stands for the result in a cell. -/
  | declareCell (name : String) (cell : Cell)
  | assign (name : String) (value : Value)
  | read (name : String)
  | remove (name : String)
  | peek (name : String)
  /-- Give a variable a value, if there is one. -/
  | set (name : String) (value : Value)
  /-- Bind a variable to a cell, if there is one. -/
  | setCell (name : String) (cell : Cell)

namespace Action

/-- Carry out the action. Reading and looking give a value. -/
def perform : Action → Exec (Option Value)
  | make content => do
    let _ ← Exec.makeCell content
    return none
  | fill cell value => do
    modify fun state => { state with cells := state.cells.fill cell value }
    return none
  | declare name value => do
    Exec.declareVariable (.plain name value)
    return none
  | declareCell name cell => do
    Exec.declareVariable (.ofCell name cell)
    return none
  | assign name value => do
    Exec.assignVariable name value
    return none
  | read name => do
    let value ← Exec.readVariable name
    return some value
  | remove name => do
    modify fun state => { state with vars := state.vars.remove name }
    return none
  | peek name => do
    let state ← get
    return (state.vars.get? name).bind (·.peek state.cells)
  | set name value => do
    Exec.replaceVariable (.plain name value)
    return none
  | setCell name cell => do
    Exec.replaceVariable (.ofCell name cell)
    return none

/-- The name that the action is about. -/
def name? : Action → Option String
  | declare name _ | declareCell name _ | assign name _ | read name | remove name | peek name
  | set name _ | setCell name _ => some name
  | make _ | fill _ _ => none

/-- The cell that the action is about. -/
def cell? : Action → Option Cell
  | fill cell _ | declareCell _ cell | setCell _ cell => some cell
  | make _ | declare _ _ | assign _ _ | read _ | remove _ | peek _ | set _ _ => none

/-- Whether the action ends what a variable of the name was bound to. -/
def rebinds (name : String) : Action → Bool
  | assign other _ | set other _ | setCell other _ | remove other => other = name
  | make _ | fill _ _ | declare _ _ | declareCell _ _ | read _ | peek _ => false

/-! ## What an action does -/

/-- The cells after the action. -/
def cells (cells : Cells) : Action → Cells
  | make content => cells.add content
  | fill cell value => cells.fill cell value
  | declare _ _ | declareCell _ _ | assign _ _ | read _ | remove _ | peek _ | set _ _ | setCell _ _ =>
    cells

/-- The variables after the action. -/
def vars (cells : Cells) (vars : Variables) : Action → Variables
  | declare name value => (vars.declare (.plain name value)).toOption.getD vars
  | declareCell name cell => (vars.declare (.ofCell name cell)).toOption.getD vars
  | assign name value | set name value => vars.replace (.plain name value)
  | setCell name cell => vars.replace (.ofCell name cell)
  | read name => ((vars.read cells name).map Prod.snd).toOption.getD vars
  | remove name => vars.remove name
  | make _ | fill _ _ | peek _ => vars

theorem run_bind_pure_state {α β : Type} (s : State) (step : Exec α) (f : α → β) :
    (s.run (step >>= fun a => pure (f a))).2 = (s.run step).2 := by
  rw [Exec.run_bind]
  rcases s.run step with ⟨_ | _, t⟩ <;> rfl

theorem run_declareVariable_state (s : State) (v : Variable) :
    (s.run (Exec.declareVariable v)).2 =
      { s with vars := (s.vars.declare v).toOption.getD s.vars } := by
  unfold Exec.declareVariable
  rw [Exec.run_get_bind]
  cases s.vars.declare v <;> rfl

theorem run_assignVariable_state (s : State) (name : String) (value : Value) :
    (s.run (Exec.assignVariable name value)).2 =
      { s with vars := s.vars.replace (.plain name value) } := by
  unfold Exec.assignVariable
  rw [Exec.run_get_bind, Variables.assign]
  cases hcontains : s.vars.contains name with
  | true => rfl
  | false =>
    rw [Variables.replace_of_not_contains (v := .plain name value) hcontains]
    rfl

/-- An action changes the variables and the cells as these functions say, also if it fails. -/
theorem run_perform (s : State) (action : Action) :
    (s.run action.perform).2 =
      { s with vars := action.vars s.cells s.vars, cells := action.cells s.cells } := by
  cases action with
  | declare name value =>
    exact (run_bind_pure_state s _ _).trans (run_declareVariable_state s (.plain name value))
  | declareCell name cell =>
    exact (run_bind_pure_state s _ _).trans (run_declareVariable_state s (.ofCell name cell))
  | assign name value =>
    exact (run_bind_pure_state s _ _).trans (run_assignVariable_state s name value)
  | read name =>
    exact (run_bind_pure_state s _ _).trans (congrArg Prod.snd (Exec.run_readVariable_eq s name))
  | make content => rfl
  | fill cell value => rfl
  | remove name => rfl
  | peek name => rfl
  | set name value => rfl
  | setCell name cell => rfl

/-- What becomes of the variable of the name that the action is about. -/
def effect (cells : Cells) (old : Option Variable) : Action → Option Variable
  | declare name value => old.or (some (.plain name value))
  | declareCell name cell => old.or (some (.ofCell name cell))
  | assign name value | set name value => old.map fun _ => .plain name value
  | setCell name cell => old.map fun _ => .ofCell name cell
  | read _ => old.map (·.settled cells)
  | remove _ => none
  | make _ | fill _ _ | peek _ => old

/-- An action leaves the variables of other names alone. -/
theorem get?_vars (cells : Cells) (vars : Variables) (action : Action) (name : String) :
    (action.vars cells vars).get? name =
      if action.name? = some name then action.effect cells (vars.get? name)
      else vars.get? name := by
  cases action with
  | declare other value =>
    simp only [name?, Option.some.injEq]
    exact vars.get?_declare (.plain other value) name
  | declareCell other cell =>
    simp only [name?, Option.some.injEq]
    exact vars.get?_declare (.ofCell other cell) name
  | assign other value | set other value =>
    simp only [name?, Option.some.injEq, eq_comm (a := other)]
    exact vars.get?_replace (.plain other value) name
  | setCell other cell =>
    simp only [name?, Option.some.injEq, eq_comm (a := other)]
    exact vars.get?_replace (.ofCell other cell) name
  | read other =>
    simp only [name?, Option.some.injEq]
    exact vars.get?_read name cells other
  | remove other =>
    simp only [name?, Option.some.injEq, eq_comm (a := other)]
    exact vars.get?_remove other name
  | peek other => exact (ite_self _).symm
  | make content | fill cell value => rfl

theorem nodup_names_vars (cells : Cells) {vars : Variables}
    (h : (vars.entries.map Variable.name).Nodup) (action : Action) :
    ((action.vars cells vars).entries.map Variable.name).Nodup := by
  cases action with
  | declare name value => exact Variables.nodup_names_declare h _
  | declareCell name cell => exact Variables.nodup_names_declare h _
  | assign name value | set name value => exact (vars.names_replace _).symm ▸ h
  | setCell name cell => exact (vars.names_replace _).symm ▸ h
  | read name => exact (vars.names_read name cells).symm ▸ h
  | remove name => exact h.sublist (List.filter_sublist.map Variable.name)
  | make content | fill cell value | peek name => exact h

end Action

/-! ## Histories -/

/-- What a variable is bound to. -/
inductive Binding where
  | value (value : Value)
  | cell (cell : Cell)

/-- A variable right after it was bound. -/
def Binding.variable (name : String) : Binding → Variable
  | value v => .plain name v
  | cell c => .ofCell name c

/-- The actions on a scope that had neither variables nor cells, latest first. -/
abbrev History := List Action

namespace History

/-- The state after the actions. -/
def state : History → State
  | [] => {}
  | action :: earlier => ((state earlier).run action.perform).2

/-- How many cells were made. -/
def made : History → Nat
  | [] => 0
  | .make _ :: earlier => made earlier + 1
  | _ :: earlier => made earlier

/-- Every action is about a cell that was made before, if it is about a cell. -/
def Valid : History → Prop
  | [] => True
  | action :: earlier => (∀ cell ∈ action.cell?, cell.index < made earlier) ∧ Valid earlier

/-- What a cell was filled with last, or else made with. -/
def latest (cell : Cell) : History → Option Value
  | [] => none
  | .make content :: earlier => if cell.index = made earlier then content else latest cell earlier
  | .fill filled value :: earlier => if filled = cell then some value else latest cell earlier
  | _ :: earlier => latest cell earlier

/-- Whether the name was declared and not removed since. -/
def known (name : String) : History → Bool
  | [] => false
  | .declare other _ :: earlier | .declareCell other _ :: earlier =>
    other = name || known name earlier
  | .remove other :: earlier => other ≠ name && known name earlier
  | _ :: earlier => known name earlier

end History

namespace Action

/-- What the action binds its name to, if it succeeds. -/
def offer? : Action → Option Binding
  | declare _ value | assign _ value | set _ value => some (.value value)
  | declareCell _ cell | setCell _ cell => some (.cell cell)
  | make _ | fill _ _ | read _ | remove _ | peek _ => none

/-- Whether the action needs a name that is new. -/
def declares : Action → Bool
  | declare _ _ | declareCell _ _ => true
  | make _ | fill _ _ | assign _ _ | read _ | remove _ | peek _ | set _ _ | setCell _ _ => false

/-- What the action binds the name to, given the actions before it. A declaration succeeds if the name
is new, and the other bindings if it is not. -/
def binding? (name : String) (earlier : History) (action : Action) : Option Binding :=
  if action.name? = some name ∧ action.declares = !earlier.known name then action.offer? else none

end Action

namespace History

/-- The latest action binds the name. -/
def Binds (name : String) (binding : Binding) : History → Prop
  | [] => False
  | action :: earlier => action.binding? name earlier = some binding

/-- The name was bound by the latest action of `base`, and not again by the actions since. -/
structure Bound (name : String) (binding : Binding) (since base : History) : Prop where
  binds : base.Binds name binding
  kept : ∀ action ∈ since, action.rebinds name = false

/-- What reading the name gives after the actions. -/
def reading (name : String) (h : History) : Except Error Value :=
  (h.state.run (Exec.readVariable name)).1

/-- What reads of the name gave since the actions of `base`, as far as they succeeded, latest
first. -/
def readings (name : String) (base : History) : History → List Value
  | [] => []
  | .read other :: since =>
    (if other = name then (reading name (since ++ base)).toOption.toList else []) ++
      readings name base since
  | _ :: since => readings name base since

theorem state_cons (action : Action) (earlier : History) :
    state (action :: earlier) =
      { state earlier with
        vars := action.vars (state earlier).cells (state earlier).vars
        cells := action.cells (state earlier).cells } :=
  action.run_perform (state earlier)

theorem get?_state_cons (action : Action) (earlier : History) (name : String) :
    (state (action :: earlier)).vars.get? name =
      if action.name? = some name then
        action.effect (state earlier).cells ((state earlier).vars.get? name)
      else (state earlier).vars.get? name := by
  rw [state_cons]
  exact action.get?_vars (state earlier).cells (state earlier).vars name

theorem cells_state_cons (action : Action) (earlier : History) :
    (state (action :: earlier)).cells = action.cells (state earlier).cells := by
  rw [state_cons]

theorem nodup_names (h : History) : (h.state.vars.entries.map Variable.name).Nodup := by
  induction h with
  | nil => exact List.nodup_nil
  | cons action earlier ih =>
    rw [state_cons]
    exact action.nodup_names_vars _ ih

theorem isSome_get?_state (name : String) (h : History) :
    (h.state.vars.get? name).isSome = h.known name := by
  induction h with
  | nil => rfl
  | cons action earlier ih =>
    rw [get?_state_cons]
    cases action with
    | declare other value | declareCell other cell =>
      simp only [Action.name?, Action.effect, Option.some.injEq, known, ← ih]
      by_cases hname : other = name <;> simp [hname]
    | assign other value | set other value | setCell other cell | read other =>
      simp only [Action.name?, Action.effect, Option.some.injEq, known, ← ih]
      split <;> simp
    | remove other =>
      simp only [Action.name?, Action.effect, Option.some.injEq, known, ← ih]
      by_cases hname : other = name <;> simp [hname]
    | peek other =>
      simp only [Action.effect, known, ite_self]
      exact ih
    | make content | fill cell value => exact ih

/-! ### Cells -/

theorem made_le_cons (action : Action) (earlier : History) :
    made earlier ≤ made (action :: earlier) := by
  cases action with
  | make content => exact Nat.le_succ _
  | _ => exact Nat.le_refl _

theorem size_cells_state (h : History) : h.state.cells.contents.size = h.made := by
  induction h with
  | nil => rfl
  | cons action earlier ih =>
    rw [cells_state_cons]
    cases action with
    | make content => simp [Action.cells, Cells.add, made, ih]
    | fill cell value => simp [Action.cells, Cells.fill, made, ih]
    | _ => exact ih

/-- A cell holds what it was filled with last. -/
theorem get?_cells_state {h : History} (hvalid : h.Valid) {cell : Cell}
    (hcell : cell.index < h.made) : h.state.cells.get? cell = h.latest cell := by
  induction h with
  | nil => exact absurd hcell (Nat.not_lt_zero _)
  | cons action earlier ih =>
    have hsize := size_cells_state earlier
    rw [cells_state_cons]
    cases action with
    | make content =>
      rw [latest, Action.cells]
      by_cases hfresh : cell.index = made earlier
      · have hcell : cell = (state earlier).cells.fresh := by
          rw [Cells.fresh, hsize, ← hfresh]
        rw [if_pos hfresh, hcell, Cells.get?_add_fresh]
      · have hlt : cell.index < made earlier := by
          rw [made] at hcell
          omega
        rw [if_neg hfresh, Cells.get?_add_of_lt (hsize ▸ hlt), ih hvalid.2 hlt]
    | fill filled value =>
      rw [latest, Action.cells]
      by_cases hfilled : filled = cell
      · rw [if_pos hfilled, ← hfilled, Cells.get?_fill_self (hsize ▸ hvalid.1 filled rfl)]
      · rw [if_neg hfilled, Cells.get?_fill_of_ne (Ne.symm hfilled), ih hvalid.2 hcell]
    | _ => exact ih hvalid.2 hcell

/-! ### Bindings -/

/-- A name that is known has a last binding. -/
theorem exists_bound {name : String} {h : History} (hknown : h.known name = true) :
    ∃ binding since base, h = since ++ base ∧ Bound name binding since base := by
  induction h with
  | nil => cases hknown
  | cons action earlier ih =>
    cases hbinding : action.binding? name earlier with
    | some binding =>
      exact ⟨binding, [], action :: earlier, rfl, hbinding, List.forall_mem_nil _⟩
    | none =>
      have hkept : known name earlier = true ∧ action.rebinds name = false := by
        cases action with
        | declare other value | declareCell other cell =>
          have hnew : other = name → known name earlier = true := by
            simpa [Action.binding?, Action.name?, Action.declares, Action.offer?] using hbinding
          have hor : other = name ∨ known name earlier = true := by simpa [known] using hknown
          exact ⟨hor.elim hnew id, rfl⟩
        | assign other value | set other value | setCell other cell =>
          have hearlier : known name earlier = true := hknown
          have hne : other ≠ name := by
            simpa [Action.binding?, Action.name?, Action.declares, Action.offer?, hearlier] using
              hbinding
          exact ⟨hearlier, decide_eq_false hne⟩
        | remove other =>
          have hand : other ≠ name ∧ known name earlier = true := by simpa [known] using hknown
          exact ⟨hand.2, decide_eq_false hand.1⟩
        | make content | fill cell value | read other | peek other => exact ⟨hknown, rfl⟩
      obtain ⟨binding, since, base, rfl, hbound⟩ := ih hkept.1
      exact ⟨binding, action :: since, base, rfl, hbound.binds,
        List.forall_mem_cons.mpr ⟨hkept.2, hbound.kept⟩⟩

theorem get?_of_binds {name : String} {binding : Binding} {base : History}
    (h : base.Binds name binding) : base.state.vars.get? name = some (binding.variable name) := by
  cases base with
  | nil => exact h.elim
  | cons action earlier =>
    have hthere := isSome_get?_state name earlier
    rw [get?_state_cons]
    simp only [Binds, Action.binding?] at h
    split at h
    · next hsuccess =>
      obtain ⟨hname, hdeclares⟩ := hsuccess
      rw [if_pos hname]
      cases action with
      | declare other value | declareCell other cell =>
        cases hname
        cases h
        have hnone : (state earlier).vars.get? name = none := by
          rw [← Option.isNone_iff_eq_none, ← Option.not_isSome, hthere]
          exact hdeclares.symm
        rw [hnone]
        rfl
      | assign other value | set other value | setCell other cell =>
        cases hname
        cases h
        have hknown : known name earlier = true := by simpa [Action.declares] using hdeclares
        obtain ⟨w, hw⟩ := Option.isSome_iff_exists.mp (hthere.trans hknown)
        rw [hw]
        rfl
      | make content | fill cell value | read other | remove other | peek other => cases h
    · cases h

/-- An action that does not bind the variable again leaves it alone, or else reads it. -/
theorem get?_keep {name : String} {v : Variable} {earlier : History} {action : Action}
    (hget : (state earlier).vars.get? name = some v) (hkept : action.rebinds name = false) :
    action = .read name ∧
        (state (action :: earlier)).vars.get? name = some (v.settled (state earlier).cells) ∨
      action ≠ .read name ∧ (state (action :: earlier)).vars.get? name = some v := by
  rw [get?_state_cons, hget]
  by_cases hname : action.name? = some name
  · rw [if_pos hname]
    cases action with
    | read other =>
      cases hname
      exact .inl ⟨rfl, rfl⟩
    | declare other value | declareCell other cell | peek other => exact .inr ⟨by simp, rfl⟩
    | assign other value | set other value | setCell other cell | remove other =>
      cases hname
      simp [Action.rebinds] at hkept
    | make content | fill cell value => cases hname
  · rw [if_neg hname]
    refine .inr ⟨?_, rfl⟩
    rintro rfl
    exact hname rfl

/-! ### Reads -/

/-- Reading gives what is to be seen. -/
theorem toOption_reading {name : String} {v : Variable} {h : History}
    (hget : h.state.vars.get? name = some v) :
    (reading name h).toOption = v.peek h.state.cells := by
  rw [reading, Exec.run_readVariable_eq]
  rcases h.state.vars.read_cases name h.state.cells with
    ⟨hnone, -⟩ | ⟨w, hw, hpeek, hread⟩ | ⟨w, value, hw, hpeek, hread⟩
  · cases hget.symm.trans hnone
  · cases hget.symm.trans hw
    rw [hread, hpeek]
    rfl
  · cases hget.symm.trans hw
    rw [hread, hpeek]
    rfl

theorem readings_read (name : String) (base since : History) :
    readings name base (.read name :: since) =
      (reading name (since ++ base)).toOption.toList ++ readings name base since := by
  rw [readings, if_pos rfl]

theorem readings_of_ne {name : String} {action : Action} (h : action ≠ .read name)
    (base since : History) : readings name base (action :: since) = readings name base since := by
  cases action with
  | read other =>
    have hne : other ≠ name := fun heq => h (heq ▸ rfl)
    rw [readings, if_neg hne, List.nil_append]
  | _ => rfl

theorem Bound.of_cons {name : String} {binding : Binding} {action : Action} {since base : History}
    (h : Bound name binding (action :: since) base) : Bound name binding since base :=
  ⟨h.binds, (List.forall_mem_cons.mp h.kept).2⟩

/-- A variable that was given a value holds it, however often it is read. -/
theorem Bound.get?_value {name : String} {value : Value} {since base : History}
    (h : Bound name (.value value) since base) :
    (state (since ++ base)).vars.get? name = some (.plain name value) := by
  induction since with
  | nil => exact get?_of_binds h.binds
  | cons action since ih =>
    rcases get?_keep (ih h.of_cons) (List.forall_mem_cons.mp h.kept).1 with
      ⟨-, hget⟩ | ⟨-, hget⟩
    · exact hget
    · exact hget

/-- A variable that was bound to a cell has not been read and stands for the cell, or else it holds
what all reads gave. The induction is on the actions since it was bound; the first read that succeeds
takes it from the one to the other. -/
theorem Bound.get?_cell {name : String} {cell : Cell} {since base : History}
    (h : Bound name (.cell cell) since base) :
    readings name base since = [] ∧
        (state (since ++ base)).vars.get? name = some (.ofCell name cell) ∨
      ∃ value, (∀ other ∈ readings name base since, other = value) ∧
        readings name base since ≠ [] ∧
        (state (since ++ base)).vars.get? name = some ((Variable.ofCell name cell).settle value) := by
  induction since with
  | nil => exact .inl ⟨rfl, get?_of_binds h.binds⟩
  | cons action since ih =>
    have hkept := (List.forall_mem_cons.mp h.kept).1
    rw [List.cons_append]
    rcases ih h.of_cons with ⟨hnone, hget⟩ | ⟨value, hall, hsome, hget⟩
    · rcases get?_keep hget hkept with ⟨rfl, hread⟩ | ⟨hne, hsame⟩
      · rw [readings_read, hnone, List.append_nil, toOption_reading hget, hread, Variable.settled]
        cases (Variable.ofCell name cell).peek (state (since ++ base)).cells with
        | none => exact .inl ⟨rfl, rfl⟩
        | some value => exact .inr ⟨value, by simp, by simp, rfl⟩
      · exact .inl ⟨(readings_of_ne hne base since).trans hnone, hsame⟩
    · refine .inr ⟨value, ?_⟩
      rcases get?_keep hget hkept with ⟨rfl, hread⟩ | ⟨hne, hsame⟩
      · rw [readings_read, toOption_reading hget]
        refine ⟨List.forall_mem_cons.mpr ⟨rfl, hall⟩, List.cons_ne_nil _ _, hread⟩
      · rw [readings_of_ne hne]
        exact ⟨hall, hsome, hsame⟩

theorem Bound.index_lt_made {name : String} {cell : Cell} {since base : History}
    (h : Bound name (.cell cell) since base) (hvalid : Valid (since ++ base)) :
    cell.index < made (since ++ base) := by
  induction since with
  | nil =>
    cases base with
    | nil => exact h.binds.elim
    | cons action earlier =>
      have hcell : action.cell? = some cell := by
        have hoffer := h.binds
        simp only [Binds, Action.binding?] at hoffer
        split at hoffer
        · cases action <;> cases hoffer <;> rfl
        · cases hoffer
      exact Nat.lt_of_lt_of_le (hvalid.1 cell hcell) (made_le_cons action earlier)
  | cons action since ih =>
    exact Nat.lt_of_lt_of_le (ih h.of_cons hvalid.2) (made_le_cons action (since ++ base))

/-- The variable of the name was bound to the cell last and has not been read since. -/
def Unread (name : String) (cell : Cell) (h : History) : Prop :=
  ∃ since base, h = since ++ base ∧ Bound name (.cell cell) since base ∧
    readings name base since = []

theorem Unread.get? {name : String} {cell : Cell} {h : History} (hunread : h.Unread name cell) :
    h.state.vars.get? name = some (.ofCell name cell) := by
  obtain ⟨since, base, rfl, hbound, hnone⟩ := hunread
  rcases hbound.get?_cell with ⟨-, hget⟩ | ⟨-, -, hsome, -⟩
  · exact hget
  · exact absurd hnone hsome

theorem Unread.index_lt_made {name : String} {cell : Cell} {h : History}
    (hunread : h.Unread name cell) (hvalid : h.Valid) : cell.index < h.made := by
  obtain ⟨since, base, rfl, hbound, -⟩ := hunread
  exact hbound.index_lt_made hvalid

/-- A variable that stands for a cell has not been read. -/
theorem unread_of_alias {name : String} {v : Variable} {cell : Cell} {h : History}
    (hget : h.state.vars.get? name = some v) (hslot : v.slot = .alias cell) :
    h.Unread name cell := by
  have hknown : h.known name = true := by
    rw [← isSome_get?_state, hget]
    rfl
  obtain ⟨binding, since, base, rfl, hbound⟩ := exists_bound hknown
  cases binding with
  | value value =>
    cases hget.symm.trans hbound.get?_value
    cases hslot
  | cell bound =>
    rcases hbound.get?_cell with ⟨hnone, hcell⟩ | ⟨value, -, -, hcell⟩
    · cases hget.symm.trans hcell
      cases hslot
      exact ⟨since, base, rfl, hbound, hnone⟩
    · cases hget.symm.trans hcell
      cases hslot

/-! ## The laws of a scope -/

/-- Reading a name gives what looking at it shows. If there is nothing to be seen then reading fails
and changes nothing. -/
structure ReadsAsShown (s : State) (name : String) : Prop where
  ok_iff : ∀ value, (s.run (Action.read name).perform).1 = .ok (some value) ↔
    (s.run (Action.peek name).perform).1 = .ok (some value)
  undefined : s.view name = none →
    s.run (Action.read name).perform = (.error { cause := .undefinedVariable name }, s)
  unresolved : ∀ cell, s.view name = some (none, cell) →
    s.run (Action.read name).perform = (.error { cause := .unresolvedCall name }, s)

/-- What there is to be seen under a name, by the last binding of the name and by what was read
since. -/
structure Remembers (h : History) (name : String) : Prop where
  absent : h.known name = false → h.state.view name = none
  bound : h.known name = true →
    ∃ binding since base, h = since ++ base ∧ Bound name binding since base
  value : ∀ value since base, h = since ++ base → Bound name (.value value) since base →
    h.state.view name = some (some value, none)
  unread : ∀ cell since base, h = since ++ base → Bound name (.cell cell) since base →
    readings name base since = [] → h.state.view name = some (h.latest cell, some cell)
  read : ∀ cell since base value, h = since ++ base → Bound name (.cell cell) since base →
    value ∈ readings name base since → h.state.view name = some (some value, some cell)

/-- The action leaves the variable of a name alone, but filling a cell shows in a variable that has
not been read since it was bound to the cell. -/
structure Spares (h : History) (action : Action) (name : String) : Prop where
  untouched : (state (action :: h)).vars.get? name = h.state.vars.get? name
  view : (∀ cell value, action = .fill cell value → ¬ h.Unread name cell) →
    (state (action :: h)).view name = h.state.view name
  filled : ∀ cell value, action = .fill cell value → h.Unread name cell →
    (state (action :: h)).view name = some (some value, some cell)

theorem readsAsShown (s : State) (name : String) : ReadsAsShown s name := by
  have hread : s.run (Action.read name).perform =
      ((s.vars.read s.cells name).map fun read => some read.1,
        { s with vars := ((s.vars.read s.cells name).map Prod.snd).toOption.getD s.vars }) := by
    show s.run (Exec.readVariable name >>= fun value => pure (some value)) = _
    rw [Exec.run_bind, Exec.run_readVariable_eq]
    cases s.vars.read s.cells name <;> rfl
  have hpeek : (s.run (Action.peek name).perform).1 =
      .ok ((s.vars.get? name).bind (·.peek s.cells)) := rfl
  rcases s.vars.read_cases name s.cells with
    ⟨hget, hresult⟩ | ⟨v, hget, hnone, hresult⟩ | ⟨v, value, hget, hsome, hresult⟩
  · rw [hresult] at hread
    refine ⟨fun value => ?_, fun _ => hread, fun cell hview => ?_⟩
    · rw [hread, hpeek, hget]
      simp [Except.map]
    · cases hview.symm.trans (State.view_eq_none_iff.mpr hget)
  · rw [hresult] at hread
    refine ⟨fun value => ?_, fun hview => ?_, fun _ _ => hread⟩
    · rw [hread, hpeek, hget, Option.bind_some, hnone]
      simp [Except.map]
    · cases hview.symm.trans (State.view_eq_some hget)
  · rw [hresult] at hread
    have hview := State.view_eq_some hget
    rw [hsome] at hview
    refine ⟨fun other => ?_, fun hview' => ?_, fun cell hview' => ?_⟩
    · rw [hread, hpeek, hget, Option.bind_some, hsome]
      rfl
    · cases hview.symm.trans hview'
    · cases hview.symm.trans hview'

theorem remembers {h : History} (hvalid : h.Valid) (name : String) : Remembers h name where
  absent hknown := by
    rw [State.view_eq_none_iff, ← Option.not_isSome_iff_eq_none, isSome_get?_state, hknown]
    exact Bool.false_ne_true
  bound := exists_bound
  value := by
    rintro value since base rfl hbound
    exact State.view_eq_some hbound.get?_value
  unread := by
    rintro cell since base rfl hbound hnone
    have hunread : Unread name cell (since ++ base) := ⟨since, base, rfl, hbound, hnone⟩
    rw [State.view_eq_some hunread.get?, ← get?_cells_state hvalid (hunread.index_lt_made hvalid)]
    rfl
  read := by
    rintro cell since base value rfl hbound hvalue
    rcases hbound.get?_cell with ⟨hnone, -⟩ | ⟨kept, hall, -, hget⟩
    · rw [hnone] at hvalue
      cases hvalue
    · rw [hall value hvalue]
      exact State.view_eq_some hget

theorem spares {h : History} {action : Action} (hvalid : Valid (action :: h)) {name : String}
    (hname : action.name? ≠ some name) : Spares h action name := by
  have hsame : (state (action :: h)).vars.get? name = h.state.vars.get? name := by
    rw [get?_state_cons, if_neg hname]
  have hsize := size_cells_state h
  refine ⟨hsame, fun hfill => ?_, ?_⟩
  · have hpeek : ∀ v, h.state.vars.get? name = some v →
        v.peek (action.cells h.state.cells) = v.peek h.state.cells := by
      intro v hget
      unfold Variable.peek
      split
      · rfl
      · next cell hslot =>
        have hunread := unread_of_alias hget hslot
        cases action with
        | make content =>
          exact Cells.get?_add_of_lt (hsize ▸ hunread.index_lt_made hvalid.2) content
        | fill filled value =>
          refine Cells.get?_fill_of_ne (fun heq => hfill filled value rfl ?_) value
          exact heq ▸ hunread
        | _ => rfl
    unfold State.view
    rw [hsame, cells_state_cons]
    cases hget : h.state.vars.get? name with
    | none => rfl
    | some v => exact congrArg (fun seen => some (seen, v.cell)) (hpeek v hget)
  · rintro cell value rfl hunread
    have hfilled : (state (.fill cell value :: h)).cells.get? cell = some value := by
      rw [cells_state_cons]
      exact Cells.get?_fill_self (hsize ▸ hvalid.1 cell rfl) value
    rw [State.view_eq_some (hsame.trans hunread.get?)]
    exact congrArg (fun seen => some (seen, some cell)) hfilled

/-- Reads are snapshots.

After any actions on the variables and the cells of a scope, the names of the variables are distinct.
Reading a name succeeds if and only if looking at it shows a value, and gives this value. It fails for
a name without a variable, and for one whose cell has not been filled, and then nothing changes.

A variable that was given a value shows it, and has no cell. A variable that was bound to a cell has
that cell. As long as no read of it has succeeded since, it shows what the cell was filled with last.
After that it shows what any such read gave, whatever the cell is filled with, until it is bound
again. An action leaves the variables of other names as they are, and what they show, except that
filling a cell shows in those that were bound to it last and have not been read since. -/
theorem reads_are_snapshots {h : History} (hvalid : h.Valid) (name : String) :
    (h.state.vars.entries.map Variable.name).Nodup ∧ ReadsAsShown h.state name ∧
      Remembers h name ∧
      ∀ action : Action, Valid (action :: h) → action.name? ≠ some name → Spares h action name :=
  ⟨h.nodup_names, readsAsShown h.state name, remembers hvalid name,
    fun _ hnext hother => spares hnext hother⟩

/-- Two variables stand for one cell, and only one of them is read between two fillings. -/
def sharing : History :=
  [.fill ⟨0⟩ (.string "late"), .read "b", .fill ⟨0⟩ (.string "early"), .read "a",
    .declareCell "b" ⟨0⟩, .declareCell "a" ⟨0⟩, .make none]

theorem reads_are_snapshots_sharing :
    sharing.Valid ∧ sharing.state.view "a" = some (some (.string "late"), some ⟨0⟩) ∧
      sharing.state.view "b" = some (some (.string "early"), some ⟨0⟩) := by
  have hvalid : sharing.Valid := by simp [sharing, Valid, Action.cell?, made]
  have ha : Bound "a" (.cell ⟨0⟩) (sharing.take 5) (sharing.drop 5) :=
    ⟨rfl, by simp [sharing, Action.rebinds]⟩
  have hb : Bound "b" (.cell ⟨0⟩) (sharing.take 4) (sharing.drop 4) :=
    ⟨rfl, by simp [sharing, Action.rebinds]⟩
  have hnone : readings "a" (sharing.drop 5) (sharing.take 5) = [] := rfl
  have hsome : readings "b" (sharing.drop 4) (sharing.take 4) = [.string "early"] := rfl
  refine ⟨hvalid, ?_, ?_⟩
  · exact (reads_are_snapshots hvalid "a").2.2.1.unread _ _ _ (List.take_append_drop 5 _).symm ha
      hnone
  · exact (reads_are_snapshots hvalid "b").2.2.1.read _ _ _ _ (List.take_append_drop 4 _).symm hb
      (hsome ▸ List.mem_cons_self)

end History

end Scope

end Scripting
