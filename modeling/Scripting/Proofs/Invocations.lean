import Scripting.Proofs.Statements

/-!
# Invocations

A step of a run depends on how declared functions are run only through the calls that it makes.
`Form.invocations` lists these calls in order, each with the state in which it is made. Each listed
call is of a function of the state in which it is made, and that state is sound and has advanced from
the one in which the statement began (`invoked_form`).
-/

namespace Scripting

open State

/-- A call of a declared function that is about to be run. -/
structure Invocation where
  function : Declaration
  values : List Value
  span : Span
  state : State

/-- How the call ends when functions are run in the given way. -/
def Invocation.run (i : Invocation) (invoke : Invoke) : Except Error (Option Value) × State :=
  i.state.run (invoke i.function i.values i.span)

/-- What `next` lists after a step: nothing if the step fails. -/
def State.after {α β : Type} (s : State) (step : Exec α) (next : α → State → List β) : List β :=
  match s.run step with
  | (.ok a, t) => next a t
  | (.error _, _) => []

/-! ## The calls of an expression -/

section Lists

variable (invoke : Invoke)

/-- The calls that a native function asks for. -/
def Native.invocations {α : Type} (site : CallSite) : Native α → State → List Invocation
  | .done _, _ | .fail _, _ => []
  | .argument index next, s =>
    s.after (Exec.argumentToken site index) fun token t =>
      t.after (Exec.operand token) fun value u => (next value).invocations site u
  | .callback index next, s =>
    s.after (Exec.argumentToken site index) fun token t =>
      t.after (Exec.callback token) fun declaration u =>
        (next { name := declaration.name, arity := declaration.arity }).invocations site u
  | .invoke function values next, s =>
    match s.function? function.name with
    | some declaration =>
      ⟨declaration, values, site.span, s⟩ ::
        s.after (invoke declaration values site.span) fun result t =>
          (next result).invocations site t
    | none => []
  | .lookup name next, s =>
    if s.vars.contains name then
      s.after (Exec.readVariable name) fun value t => (next (some value)).invocations site t
    else
      (next none).invocations site s
  | .assign name value next, s =>
    s.after (Exec.assignVariable name value) fun _ t => next.invocations site t
  | .write line next, s => next.invocations site { s with console := s.console.write line }
  | .read prompt next, s =>
    s.after (Exec.readLine prompt) fun line t => (next line).invocations site t
  | .inspect next, s =>
    s.after Exec.overview fun overview t => (next overview).invocations site t

/-- The call that a call expression makes. -/
def Call.invocations (call : Call) (s : State) : List Invocation :=
  match s.function? call.name with
  | none => []
  | some declaration =>
    if declaration.arity ≠ call.args.length then []
    else s.after (Exec.operands call.args) fun values t => [⟨declaration, values, call.span, t⟩]

/-- The calls that a function of a module makes. -/
def Module.invocations (module : Module) (access : Access) (s : State) : List Invocation :=
  match module.export? access.field, access.args with
  | some (.function function), some args =>
    let site : CallSite := { function := function.name, args, span := access.span }
    if function.arity.accepts args.length then (function.body site).invocations invoke site s
    else []
  | _, _ => []

/-- The calls that a use of a field makes. -/
def Access.invocations (access : Access) (s : State) : List Invocation :=
  match s.imports.get? access.module with
  | some module => module.invocations invoke access s
  | none => []

/-- The calls that an expression makes. -/
def Expr.invocations (expr : Expr) (s : State) : List Invocation :=
  match expr with
  | .literal _ | .reference _ => []
  | .call c => c.invocations s
  | .access a => a.invocations invoke s

/-- The calls that a statement of the form makes. A capture makes its call when its variable is bound
to the cell already. -/
def Form.invocations (form : Form) (s : State) : List Invocation :=
  match form with
  | .call c => c.invocations s
  | .access a => a.invocations invoke s
  | .declare name value =>
    if !s.vars.contains name && value.isCall then
      s.after (Exec.makeCell none) fun cell t =>
        t.after (Exec.declareVariable (.ofCell name cell)) fun _ u => value.invocations invoke u
    else []
  | .assign (.var name) value =>
    if s.vars.contains name && value.isCall then
      s.after (Exec.makeCell none) fun cell t =>
        t.after (Exec.replaceVariable (.ofCell name cell)) fun _ u => value.invocations invoke u
    else []
  | .assign (.field map _) value =>
    s.after (Exec.readVariable map) fun current t =>
      match current with
      | .map _ => value.invocations invoke t
      | _ => []
  | .returns value => value.invocations invoke s
  | .function _ | .useModule _ | .useFile _ _ => []

end Lists

/-! ## Members of the lists -/

namespace Exec

variable {α β : Type} {s : State} {invoke : Invoke}

theorem mem_after {step : Exec α} {next : α → State → List β} {i : β} :
    i ∈ s.after step next ↔ ∃ a t, s.run step = (.ok a, t) ∧ i ∈ next a t := by
  unfold State.after
  constructor
  · intro h
    split at h
    · next a t hrun => exact ⟨a, t, hrun, h⟩
    · cases h
  · rintro ⟨a, t, hrun, h⟩
    rw [hrun]
    exact h

/-- An expression that is no call makes no calls. -/
theorem invocations_of_not_isCall {expr : Expr} (h : ¬ expr.isCall) :
    expr.invocations invoke s = [] := by
  cases expr with
  | literal token => rfl
  | reference token => rfl
  | call call => exact absurd rfl h
  | access access =>
    have hargs : access.args = none := by simpa [Expr.isCall] using h
    rw [Expr.invocations, Access.invocations]
    split
    · unfold Module.invocations
      rw [hargs]
      split
      · next hsome => cases hsome
      · rfl
    · rfl

/-! ## The states in which calls are made -/

section Invoked

variable {D : Discipline} {X : Set String} {t : State}

/-- Calls that keep to the discipline: when such a call is made in a sound state, the function leaves the
scope of the caller alone. -/
def CallsKeep (D : Discipline) (invoke : Invoke) (calls : List Invocation) : Prop :=
  ∀ i ∈ calls, i.state.Sound D → i.function ∈ i.state.functions →
    Keeps D ∅ False i.state (invoke i.function i.values i.span)

theorem callsKeep_of_sound (hinvoke : invoke.Sound D) (calls : List Invocation) :
    CallsKeep D invoke calls :=
  fun i _ hs hmem => hinvoke i.function i.values i.span i.state hs hmem

theorem CallsKeep.after {step : Exec α} {next : α → State → List Invocation} {a : α}
    (h : CallsKeep D invoke (s.after step next)) (hrun : s.run step = (.ok a, t)) :
    CallsKeep D invoke (next a t) :=
  fun i hi => h i (mem_after.mpr ⟨a, t, hrun, hi⟩)

/-- The calls are of functions of the states that they are made in, which have advanced from `s`. -/
def Invoked (D : Discipline) (s : State) (calls : List Invocation) : Prop :=
  ∀ i ∈ calls, Advances D Set.univ False s i.state ∧ i.function ∈ i.state.functions

theorem invoked_nil : Invoked D s [] := fun _ h => absurd h List.not_mem_nil

theorem Invoked.of_advances {calls : List Invocation} (h : Invoked D t calls)
    (hst : Advances D X False s t) : Invoked D s calls :=
  fun i hi => ⟨(hst.mono (Set.subset_univ X) id).trans (h i hi).1, (h i hi).2⟩

theorem Invoked.after {step : Exec α} {n : α → State → List Invocation}
    (hstep : Keeps D X False s step)
    (hnext : ∀ a t, s.run step = (.ok a, t) → Advances D X False s t → Invoked D t (n a t)) :
    Invoked D s (s.after step n) := by
  intro i hi
  obtain ⟨a, t, hrun, hi⟩ := mem_after.mp hi
  have hst := Ensures.of_ok hstep hrun
  exact (hnext a t hrun hst).of_advances hst i hi

theorem invoked_native (hs : s.Sound D) {site : CallSite} {Q : α → Prop} {work : Native α}
    (hwork : work.Confined X Q) (hcalls : CallsKeep D invoke (work.invocations invoke site s)) :
    Invoked D s (work.invocations invoke site s) := by
  induction work generalizing s with
  | done result => exact invoked_nil
  | fail error => exact invoked_nil
  | argument index next ih =>
    refine .after (X := ∅) (keeps_argumentToken hs site index) fun token t htoken ht => ?_
    exact .after (X := ∅) (keeps_operand ht.sound token) fun value u hvalue hu =>
      ih value hu.sound (hwork value) ((hcalls.after htoken).after hvalue)
  | callback index next ih =>
    refine .after (X := ∅) (keeps_argumentToken hs site index) fun token t htoken ht => ?_
    exact .after (X := ∅) (keeps_callback ht.sound token) fun declaration u hvalue hu =>
      ih _ hu.sound (hwork _) ((hcalls.after htoken).after hvalue)
  | invoke function values next ih =>
    revert hcalls
    rw [Native.invocations]
    split
    · next declaration hfunction =>
      intro hcalls
      have hmem := mem_functions_of_function? hfunction
      have hrest : CallsKeep D invoke
          (s.after (invoke declaration values site.span) fun result t =>
            (next result).invocations invoke site t) :=
        fun i hi => hcalls i (List.mem_cons_of_mem _ hi)
      refine List.forall_mem_cons.mpr ⟨⟨hs.refl, hmem⟩, ?_⟩
      exact Invoked.after (hcalls _ List.mem_cons_self hs hmem) fun result t hresult ht =>
        ih result ht.sound (hwork result) (hrest.after hresult)
    · exact fun _ => invoked_nil
  | lookup name next ih =>
    revert hcalls
    rw [Native.invocations]
    split
    · exact fun hcalls => .after (X := ∅) (keeps_readVariable hs name) fun value t hvalue ht =>
        ih _ ht.sound (hwork _) (hcalls.after hvalue)
    · exact ih none hs (hwork none)
  | assign name value next ih =>
    exact .after (keeps_assignVariable hs name value hwork.1) fun _ t hassign ht =>
      ih ht.sound hwork.2 (hcalls.after hassign)
  | write line next ih =>
    have ht := hs.console (X := ∅) (I := False) (s.console.write line)
    exact (ih ht.sound hwork hcalls).of_advances ht
  | read prompt next ih =>
    exact .after (X := ∅) (keeps_readLine hs prompt) fun line t hline ht =>
      ih line ht.sound (hwork line) (hcalls.after hline)
  | inspect next ih =>
    exact .after (X := ∅) (keeps_overview hs) fun overview t hoverview ht =>
      ih overview ht.sound (hwork overview) (hcalls.after hoverview)

theorem invoked_call (hs : s.Sound D) (call : Call) :
    Invoked D s (call.invocations s) := by
  unfold Call.invocations
  split
  · exact invoked_nil
  · next declaration hfunction =>
    split
    · exact invoked_nil
    · refine .after (X := ∅) (keeps_operands hs call.args) fun values t _ ht => ?_
      refine List.forall_mem_singleton.mpr ⟨ht.sound.refl, ?_⟩
      exact ht.functions.subset (mem_functions_of_function? hfunction)

theorem invoked_access (hs : s.Sound D) {access : Access}
    (hcalls : CallsKeep D invoke (access.invocations invoke s)) :
    Invoked D s (access.invocations invoke s) := by
  revert hcalls
  unfold Access.invocations
  split
  · next module hget =>
    unfold Module.invocations
    split
    · next function args hexport hargs =>
      dsimp only
      split
      · exact invoked_native hs (Library.confined_body
          (hs.imports (ImportTable.mem_of_get? hget)) hexport _)
      · exact fun _ => invoked_nil
    · exact fun _ => invoked_nil
  · exact fun _ => invoked_nil

theorem invoked_expr (hs : s.Sound D) {expr : Expr}
    (hcalls : CallsKeep D invoke (expr.invocations invoke s)) :
    Invoked D s (expr.invocations invoke s) := by
  cases expr with
  | literal token => exact invoked_nil
  | reference token => exact invoked_nil
  | call call => exact invoked_call hs call
  | access access => exact invoked_access hs hcalls

/-- The calls of a statement are made in sound states that have advanced from its start. -/
theorem invoked_form (hs : s.Sound D) {form : Form} (hallowed : D.Allows form)
    (hcalls : CallsKeep D invoke (form.invocations invoke s)) :
    Invoked D s (form.invocations invoke s) := by
  cases form with
  | function | useModule | useFile => exact invoked_nil
  | call call => exact invoked_call hs call
  | access access => exact invoked_access hs hcalls
  | declare name value =>
    revert hcalls
    rw [Form.invocations]
    split
    · intro hcalls
      have hcell := hs.addCell (X := {name}) (I := False) none
      have hdeclare : Keeps D {name} False { s with cells := s.cells.add none }
          (declareVariable (.ofCell name s.cells.fresh)) :=
        (ensures_declareVariable hcell.sound (D.owns_declared name value hallowed)
          (Variable.sound_pending _ _ name)).imp
          (by rintro _ _ rfl; exact hcell.sound.refl) fun _ _ ht => ht.2.1
      have hinner := Invoked.after (n := fun _ t => value.invocations invoke t) hdeclare
        fun _ t hrun ht => invoked_expr ht.sound ((hcalls.after rfl).after hrun)
      exact hinner.of_advances hcell
    · exact fun _ => invoked_nil
  | assign target value =>
    cases target with
    | var name =>
      revert hcalls
      rw [Form.invocations]
      split
      · intro hcalls
        have hcell := hs.addCell (X := {name}) (I := False) none
        have hreplace : Keeps D {name} False { s with cells := s.cells.add none }
            (replaceVariable (.ofCell name s.cells.fresh)) :=
          ensures_replaceVariable (hcell.sound.replace (Variable.sound_pending _ _ name) rfl)
        have hinner := Invoked.after (n := fun _ t => value.invocations invoke t) hreplace
          fun _ t hrun ht => invoked_expr ht.sound ((hcalls.after rfl).after hrun)
        exact hinner.of_advances hcell
      · exact fun _ => invoked_nil
    | field map field =>
      refine .after (X := ∅) (keeps_readVariable hs map) fun current t hread ht => ?_
      have hvalue := hcalls.after hread
      cases current with
      | map fields => exact invoked_expr ht.sound hvalue
      | _ => exact invoked_nil
  | returns value => exact invoked_expr hs hcalls

end Invoked

end Exec

end Scripting
