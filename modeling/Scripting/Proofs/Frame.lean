import Scripting.Proofs.Moments

/-!
# What a statement leaves alone

Variables share cells, and functions run on the same cells and the same log as their callers. Still
every variable behaves as if it held a value of its own: a statement that succeeds changes the one
variable that it names as its target, and no other one, neither of its own scope nor of a scope that
waits for it. The import table changes by imports only.
-/

namespace Scripting

open State

/-- The variable that a statement of the form names as its target: the left-hand side of an assignment,
or what a call of `IO.scan` reads into. -/
def Form.targets : Form → Set String
  | .access a => a.scanned
  | .assign (.var name) _ => {name}
  | .assign (.field map _) _ => {map}
  | _ => ∅

instance (form : Form) (name : String) : Decidable (name ∈ form.targets) :=
  match form with
  | .access a => inferInstanceAs (Decidable (name ∈ a.scanned))
  | .assign (.var x) _ => inferInstanceAs (Decidable (name = x))
  | .assign (.field map _) _ => inferInstanceAs (Decidable (name = map))
  | .function _ | .call _ | .declare _ _ | .returns _ | .useModule _ | .useFile _ _ =>
    isFalse (Set.notMem_empty name)

namespace Exec

variable {D : Discipline} {s t : State} {invoke : Invoke} {st : Statement} {flow : Flow}

theorem view_eq_none_of_declare (hinvoke : invoke.Sound .ofLoaded) (hs : s.Sound .ofLoaded)
    {name : String} {expr : Expr} (hform : st.form = .declare name expr)
    (hrun : s.run (statement invoke st) = (.ok flow, t)) : s.view name = none := by
  rw [statement_eq, hform, formOf] at hrun
  have howns : Discipline.ofLoaded.Owns name := trivial
  exact ((ensures_declare hinvoke hs howns expr st.span).of_goOn hrun).2

theorem setsField_of_assign (hinvoke : invoke.Sound D) (hs : s.Sound D)
    {map field : String} {expr : Expr} (hform : st.form = .assign (.field map field) expr)
    (hrun : s.run (statement invoke st) = (.ok flow, t)) :
    SetsField invoke map field expr s t := by
  rw [statement_eq, hform, formOf] at hrun
  exact ((ensures_assignField hinvoke hs map field expr st.span).of_goOn hrun).2

end Exec

/-- What can be seen of a variable that is there before a statement and is not its target. -/
theorem Moment.Live.view_eq {m : Moment} (hlive : m.Live) (hok : m.Succeeds) {x : String}
    (hx : m.state.view x ≠ none) (htarget : x ∉ m.statement.form.targets) :
    m.after.view x = m.state.view x := by
  obtain ⟨flow, hrun⟩ := hok.exists_outcome
  refine (hlive.ensures.of_ok hrun).view x ?_
  cases hform : m.statement.form with
  | declare name expr =>
    -- the variable that is declared is not there before
    rintro rfl
    exact hx (Exec.view_eq_none_of_declare (sound_callWithin_ofLoaded _) hlive.sound.state
      hform hrun)
  | assign target expr =>
    rw [hform] at htarget
    cases target with
    | var name => exact htarget
    | field map field => exact htarget
  | _ =>
    rw [hform] at htarget
    exact htarget

/-- A statement that succeeds changes at most its target. It leaves all other variables of its scope as
they were, by value and by cell, and the values of all variables of the scopes that wait. An assignment
to a field changes that field only. The modules in view change by imports only. -/
theorem statement_frame {m : Moment} (hlive : m.Live) (hok : m.Succeeds) :
    (∀ x v, m.state.vars.get? x = some v → x ∉ m.statement.form.targets →
      ∃ w, m.after.vars.get? x = some w ∧ w.peek m.after.cells = v.peek m.state.cells ∧
        w.cell = v.cell) ∧
    (∀ map field expr, m.statement.form = .assign (.field map field) expr →
      Exec.SetsField (callWithin m.levels) map field expr m.state m.after) ∧
    (∀ scope ∈ m.suspended, ∀ v ∈ scope.entries,
      v.peek m.after.cells = v.peek m.state.cells) ∧
    (¬ m.statement.form.Imports → m.after.imports = m.state.imports) := by
  obtain ⟨flow, hrun⟩ := hok.exists_outcome
  have hstep := hlive.ensures.of_ok hrun
  refine ⟨fun x v hv htarget => ?_, fun map field expr hform => ?_, fun scope hscope v hv => ?_,
    hstep.imports⟩
  · have hview := view_eq_some hv
    refine exists_of_view_eq_some ((hlive.view_eq hok ?_ htarget).trans hview)
    rw [hview]
    exact Option.some_ne_none _
  · exact Exec.setsField_of_assign (sound_callWithin_ofLoaded _) hlive.sound.state hform hrun
  · exact (hlive.sound.suspended scope hscope v hv).peek_extends hstep.cells

/-- The function shares the cell of its caller's `x` and then gives the name another value. -/
def shadowingText : String :=
  "function id(n) \x7b return n \x7d " ++
  "function shadow(w) \x7b var x = x x = w return x \x7d " ++
  "var x = id(\"old\") " ++
  "var y = shadow(\"new\")"

/-- After the call the caller's `x` is bound to its cell as before, and holds what it held. -/
theorem statement_frame_shadowing :
    ∃ m, Moment.ofText? shadowingText {} 3 = some m ∧ m.Succeeds ∧
      ∃ v w, m.state.vars.get? "x" = some v ∧ m.after.vars.get? "x" = some w ∧
        w.cell = v.cell ∧ (w.peek m.after.cells).map Value.text = some "old" := by
  have hrun : (Moment.ofText? shadowingText {} 3).any (fun m =>
      decide (m.Succeeds ∧ "x" ∉ m.statement.form.targets ∧
        ((m.state.vars.get? "x").bind (Variable.peek m.state.cells)).map Value.text = some "old")) =
      true := by decide +kernel
  obtain ⟨m, hm, hfacts⟩ := (Option.any_eq_true _ _).mp hrun
  obtain ⟨hok, htarget, hold⟩ := of_decide_eq_true hfacts
  obtain ⟨v, hv, hold⟩ : ∃ v, m.state.vars.get? "x" = some v ∧
      (v.peek m.state.cells).map Value.text = some "old" := by
    cases hget : m.state.vars.get? "x" with
    | none =>
      rw [hget] at hold
      cases hold
    | some v =>
      rw [hget] at hold
      exact ⟨v, rfl, hold⟩
  obtain ⟨w, hw, hpeek, hcell⟩ :=
    (statement_frame (Moment.live_of_ofText? hm) hok).1 "x" v hv htarget
  exact ⟨m, hm, hok, v, w, hv, hw, hcell, hpeek ▸ hold⟩

end Scripting
