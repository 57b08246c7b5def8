import Scripting.Proofs.Runs

/-!
# Bindings that fail

A declaration or an assignment that fails leaves the scope as it was, wherever the error comes from
(`failed_binding_atomic`). What is shared by all scopes may have changed, since calls may have been
made on the way. Of the functions none is lost or exchanged for another one: a function is declared
under a name that is free, and is never taken back (`State.Retains`).
-/

namespace Scripting

open State

/-! ## Functions stay -/

namespace State

variable {s t : State}

theorem retains_of_eq (h : t.functions = s.functions) : s.Retains t := by
  intro name declaration hfunction
  rw [function?, h]
  exact hfunction

theorem retains_declare {declaration : Declaration}
    (h : s.function? declaration.name = none) :
    s.Retains { s with functions := declaration :: s.functions } := by
  intro name known hknown
  have hne : declaration.name ≠ name := by
    rintro rfl
    cases h.symm.trans hknown
  rw [function?, List.find?_cons_of_neg (by simpa using hne)]
  exact hknown

theorem shared_retains : Shared Retains where
  trans h h' := h.trans h'
  of_eq h _ := retains_of_eq h

end State

theorem Moment.Ready.retains {m : Moment} (h : m.Ready) :
    m.state.Retains m.after :=
  shared_retains.after h fun _ _ hready => Moment.Traces.respects <| hready.traces
    (shared_retains.permits (fun _ _ _ _ => retains_of_eq rfl)
      (fun _ _ _ _ => retains_of_eq rfl) fun _ _ _ hfree => retains_declare hfree)
    fun _ _ _ _ _ => retains_of_eq rfl

/-! ## The scope stays -/

/-- Whether a statement of the form binds a variable or a field of one. -/
def Form.IsBinding : Form → Prop
  | .declare _ _ | .assign _ _ => True
  | _ => False

instance (form : Form) : Decidable form.IsBinding :=
  match form with
  | .declare _ _ | .assign _ _ => isTrue trivial
  | .function _ | .call _ | .access _ | .returns _ | .useModule _ | .useFile _ _ => isFalse id

theorem Form.standard_of_isBinding {form : Form} (h : form.IsBinding) :
    ∀ inner ∈ form.forms, inner.Standard := by
  cases form with
  | declare | assign =>
    intro inner hinner
    rw [Form.forms, List.mem_singleton] at hinner
    subst hinner
    trivial
  | _ => cases h

namespace State

variable {X : Set String} {e : Error} {s t : State}

theorem Undone.contains_eq (h : s.Undone X e t) (x : String) :
    t.vars.contains x = s.vars.contains x := by
  have hisSome : ∀ state : State, state.vars.contains x = (state.view x).isSome := by
    intro state
    rw [Variables.contains_eq_isSome, view, Option.isSome_map]
  rw [hisSome, hisSome]
  rcases h x with hsame | ⟨-, -, hthere, line, hline⟩
  · rw [hsame]
  · rw [hline, Option.isSome_iff_ne_none.mpr hthere]
    rfl

end State

/-- A binding that fails is undone. -/
theorem Moment.Ready.undone {m : Moment} (h : m.Ready) (hbinding : m.statement.form.IsBinding) :
    Exec.Ensures (Exec.statement (callWithin m.levels) m.statement) m.state
      (fun e t => m.state.Undone m.statement.form.scanned e t) fun _ _ => True := by
  have hinvoke := sound_callWithin_ofLoaded m.levels
  rw [Exec.statement_eq]
  refine Exec.Ensures.decorate ?_
  cases hform : m.statement.form with
  | declare name value =>
    rw [Exec.formOf]
    exact (Exec.undone_declare hinvoke h.sound trivial value _).goOn
  | assign target value =>
    cases target with
    | var name =>
      rw [Exec.formOf]
      exact (Exec.undone_assign hinvoke h.sound h.settled trivial value _).goOn
    | field map field =>
      rw [Exec.formOf]
      exact (Exec.undone_assignField hinvoke h.sound map field value _).goOn
  | _ =>
    rw [hform] at hbinding
    cases hbinding

/-- A declaration or assignment that fails, for whatever reason and at whatever depth, leaves the
scope with the variables it had. Each has the value and the cell that it had, and none waits for a
result. The only exception is a variable that a call of `IO.scan` has read into; the call is then
the expression whose value was to be bound, and the error is that it has none. All functions are
still declared. -/
theorem failed_binding_atomic {s t : State} (hrest : s.AtRest) (levels : Nat) {st : Statement}
    (hbinding : st.form.IsBinding) {e : Error}
    (hrun : s.run (Exec.statement (callWithin levels) st) = (.error e, t)) :
    (∀ x, t.vars.contains x = s.vars.contains x) ∧
    (∀ x, t.view x = s.view x ∨ x ∈ st.form.scanned ∧ e.cause = .noReturnValue "IO.scan" ∧
      ∃ line, t.view x = some (some (.string line), none)) ∧
    (∀ x cell, t.view x ≠ some (none, cell)) ∧
    ∀ name declaration, s.function? name = some declaration →
      t.function? name = some declaration := by
  have hready : (⟨levels, [], s, st⟩ : Moment).Ready :=
    ⟨hrest.sound, hrest.settled, Form.standard_of_isBinding hbinding⟩
  have hundone := (hready.undone hbinding).of_error hrun
  have hfunctions := hready.retains
  unfold Moment.after Moment.outcome at hfunctions
  rw [hrun] at hfunctions
  refine ⟨hundone.contains_eq, fun x => (hundone x).imp id ?_, fun x cell hwaits => ?_, hfunctions⟩
  · rintro ⟨hx, hcause, hread⟩
    exact ⟨hx, hcause, hread.line⟩
  · exact hundone.settled hrest.settled x ⟨cell, hwaits⟩

/-- A variable that holds a result is assigned to from a call of `IO.scan`, which reads into another
one and has no value. -/
def scanIntoText : String :=
  "import \"IO\" " ++
  "function one() \x7b return 1 \x7d " ++
  "var y = \"old\" " ++
  "var x = one() " ++
  "x = IO.scan(\"\", y)"

/-- The assignment fails. Its variable keeps its value and cell, and the other one has got the
line. -/
theorem failed_binding_atomic_scan :
    ∃ (m : Moment) (e : Error), m.state.AtRest ∧ m.statement.form.IsBinding ∧
      m.outcome = (.error e, m.after) ∧ m.after.view "x" = m.state.view "x" ∧
      "y" ∈ m.statement.form.scanned ∧ e.cause = .noReturnValue "IO.scan" ∧
      ((m.after.view "y").bind Prod.fst).map Value.text = some "new" ∧
      (m.after.function? "one").isSome := by
  have hruns : (Moment.ofText? scanIntoText { input := ["new"] } 4).any (fun m =>
      decide (m.statement.form.IsBinding ∧ ¬ m.Succeeds ∧ (m.after.cell? "x").isSome ∧
        (m.state.function? "one").isSome ∧
        ((m.state.view "y").bind Prod.fst).map Value.text = some "old" ∧
        ((m.after.view "y").bind Prod.fst).map Value.text = some "new")) = true := by
    decide +kernel
  obtain ⟨m, hm, hfacts⟩ := (Option.any_eq_true _ _).mp hruns
  obtain ⟨hbinding, hfails, hcell, hone, hold, hnew⟩ := of_decide_eq_true hfacts
  obtain ⟨e, hrun⟩ := Moment.exists_error_of_not_succeeds hfails
  have hrest : m.state.AtRest := .before (Moment.live_of_ofText? hm)
  obtain ⟨-, hviews, -, hfunctions⟩ := failed_binding_atomic hrest m.levels hbinding hrun
  obtain ⟨declaration, hdeclaration⟩ := Option.isSome_iff_exists.mp hone
  have hx : m.after.view "x" = m.state.view "x" := by
    refine (hviews "x").resolve_right ?_
    rintro ⟨-, -, line, hline⟩
    rw [cell?_eq, hline] at hcell
    cases hcell
  have hy := (hviews "y").resolve_left fun hsame => by
    rw [hsame, hold] at hnew
    exact absurd hnew (by decide)
  refine ⟨m, e, hrest, hbinding, hrun, hx, hy.1, hy.2.1, hnew, ?_⟩
  rw [hfunctions "one" declaration hdeclaration]
  rfl

end Scripting
