import Scripting.Proofs.Attribution
import Scripting.Proofs.FitRuns

/-!
# References to functions

A value can refer to a declared function by its name. The name is looked up when the function is
called, maybe much later and in another scope, and it leads to the same function all the time: a
name that is declared stays declared (`State.Retains`), and whatever a state holds refers to names
that are declared (`State.Backs`). So a run fails because a function is not declared only where a
statement calls it by a name that is written there, never where a function is called back that a
value refers to (`references_never_dangle`).
-/

namespace Scripting

open State

/-! ## Norms about references -/

/-- The norm that allows for all arrays, and for failures because a function is not declared if the
cause has the property. -/
def Norm.blaming (P : Cause → Prop) : Norm where
  arrays _ := True
  causes cause := cause.IsUndefined → P cause
  uniform _ _ := trivial
  defined _ hdefined hundefined := absurd hundefined hdefined

/-- The norm that is about references alone. -/
def Norm.lax : Norm := .blaming fun _ => True

section Blaming

variable {P P' : Cause → Prop} {functions : List Declaration} {s t : State}

theorem Value.Fit.blaming {value : Value} (h : value.Fit (.blaming P) functions) :
    value.Fit (.blaming P') functions :=
  ⟨h.declared, fun _ _ => trivial⟩

theorem Norm.Admits.blaming {result : Option Value} (h : (Norm.blaming P).Admits functions result) :
    (Norm.blaming P').Admits functions result :=
  fun value hvalue => (h value hvalue).blaming

theorem State.Fit.blaming (h : s.Fit (.blaming P)) : s.Fit (.blaming P') :=
  ⟨fun v hv value hvalue => (h.vars v hv value hvalue).blaming,
    fun cell value hvalue => (h.cells cell value hvalue).blaming, h.names, h.modules⟩

theorem State.Grows.blaming (h : s.Grows (.blaming P) t) : s.Grows (.blaming P') t :=
  ⟨h.functions, h.fit.blaming⟩

theorem Invocation.Fit.blaming {i : Invocation} (h : i.Fit (.blaming P)) : i.Fit (.blaming P') :=
  ⟨h.state.blaming, fun value hvalue => (h.values value hvalue).blaming⟩

/-- A step that stays fit by the lax norm stays fit by one that blames others, if it does not fail
because a function is not declared. -/
theorem Exec.StaysFit.blaming {α : Type} {step : Exec α} {Q Q' : List Declaration → α → Prop}
    (h : StaysFit .lax s step Q) (hQ : ∀ functions a, Q functions a → Q' functions a)
    (hdefined : Ensures step s (fun e _ => ¬ e.cause.IsUndefined) fun _ _ => True) :
    StaysFit (.blaming P) s step Q' := by
  refine (Ensures.and h hdefined).imp (fun e t ht => ?_) fun a t ht => ?_
  · exact ⟨ht.1.1.blaming, fun hundefined => absurd hundefined ht.2⟩
  · exact ⟨ht.1.1.blaming, hQ _ a ht.1.2⟩

end Blaming

theorem Moment.permitted_lax (m : Moment) : m.Permitted .lax :=
  ⟨fun _ _ _ _ _ => trivial, fun _ _ _ _ => trivial⟩

theorem Session.fit {s : State} (h : Session s) : s.Fit .lax := by
  induction h with
  | start console scopes => exact fit_start _ console scopes
  | run hsession hprogram ih =>
    exact (ih.execute (hsession.readyFor hprogram) fun m _ => m.permitted_lax).fit

/-! ## Declared names -/

theorem State.Grows.retains {N : Norm} {s t : State} (h : s.Grows N t) : s.Retains t :=
  fun _ _ hfunction => h.function? hfunction

/-- All names by which the state refers to functions are declared: those in what it holds, and those
in the values that are passed on. A function that an argument refers to can be called back. -/
structure State.Backs (s : State) (scopes : List Variables) (values : List Value) : Prop where
  held : ∀ name, s.Holds scopes (.function { module := none, name }) → (s.function? name).isSome
  passed : ∀ value ∈ values, ∀ name, (Value.function { module := none, name }).Within value →
    (s.function? name).isSome
  called : ∀ token name t,
    s.run (Exec.operand token) = (.ok (.function { module := none, name }), t) →
    ∃ declaration, s.run (Exec.callback token) = (.ok declaration, t) ∧
      t.function? name = some declaration
  defined : ∀ token e t, s.run (Exec.callback token) = (.error e, t) → ¬ e.cause.IsUndefined

theorem Value.Fit.isSome_function? {N : Norm} {s : State} {value : Value}
    (h : value.Fit N s.functions) {name : String}
    (hname : (Value.function { module := none, name }).Within value) :
    (s.function? name).isSome := by
  obtain ⟨declaration, hmem, heq⟩ := h.declared name hname
  rw [Option.isSome_iff_ne_none]
  exact fun hnone => function?_eq_none_iff.mp hnone declaration hmem heq

theorem State.Fit.backs {s : State} (h : s.Fit .lax) {scopes : List Variables}
    (hscopes : ∀ vars ∈ scopes, vars.Fit .lax s.functions) {values : List Value}
    (hvalues : ∀ value ∈ values, value.Fit .lax s.functions) : s.Backs scopes values where
  held name hholds := (h.of_holds hscopes hholds).isSome_function? .whole
  passed value hvalue name hname := (hvalues value hvalue).isSome_function? hname
  called token name t hrun := by
    obtain ⟨-, hvalue⟩ := Exec.Ensures.of_ok (Exec.staysFit_operand h token) hrun
    obtain ⟨declaration, hfunction⟩ :=
      Option.isSome_iff_exists.mp (hvalue.isSome_function? .whole)
    have hreturns : Exec.Ensures (Exec.callback token) s (fun _ _ => False) fun found u =>
        found = declaration ∧ u = t := by
      refine Exec.Ensures.bind (Exec.ensures_of_run hrun (Exec.Ensures.bind (Exec.ensures_get ?_)))
      simp only [hfunction]
      exact ⟨rfl, rfl⟩
    refine ⟨declaration, ?_, hfunction⟩
    cases hcallback : s.run (Exec.callback token) with
    | mk result u =>
      cases result with
      | ok found =>
        obtain ⟨rfl, rfl⟩ := hreturns.of_ok hcallback
        rfl
      | error e => exact (hreturns.of_error hcallback).elim
  defined token e t hrun := by
    have hstrict : s.Fit (.blaming fun _ => False) := h.blaming
    exact (Exec.Ensures.of_error (Exec.staysFit_callback hstrict token) hrun).2

/-! ## Who is to blame -/

namespace Moment

variable {m : Moment}

/-- The statement calls a function by its name, and there is none of that name. -/
def CallsUndeclared (m : Moment) (name : String) : Prop :=
  (∃ call, m.statement.form.expr? = some (.call call) ∧ call.name = name) ∧
    m.state.function? name = none

/-- The norm that allows the statement to fail because a function is not declared that it calls by
its name. -/
def ownCalls (m : Moment) : Norm :=
  .blaming fun cause => ∀ name, cause = .undefinedFunction name → m.CallsUndeclared name

/-- A statement that fails because a function is not declared, though nothing inside it fails, calls
the function by its name. -/
theorem IsOrigin.callsUndeclared (h : m.IsOrigin) (hready : m.Ready) (hs : m.state.Fit .lax)
    {e : Error} (hfails : m.outcome = (.error e, m.after)) {name : String}
    (hcause : e.cause = .undefinedFunction name) : m.CallsUndeclared name := by
  suffices hsupplies : Exec.Supplies m.ownCalls m.state
      (m.statement.form.invocations (callWithin m.levels) m.state)
      (Exec.statement (callWithin m.levels) m.statement) fun functions flow =>
        m.ownCalls.Admits functions flow.value? from
    (Exec.Ensures.of_error hsupplies.2 hfails).2 (hcause ▸ trivial) name hcause
  refine Exec.supplies_statement hs.blaming (hready.forms _ (mem_forms_self _)) ?_ ?_ ?_
  · intro i hi hfit
    obtain ⟨hadvances, hmem⟩ := hready.invoked i hi
    have hcall : Exec.StaysFit .lax i.state _ Norm.lax.Admits :=
      Exec.staysFit_callWithin hadvances.sound hmem hfit.blaming
        fun inner (_ : inner.InCall m.levels m.suspended i) => inner.permitted_lax
    exact hcall.blaming (fun _ _ hresult => hresult.blaming) ((h.ensures_isRefusal hi).imp
      (fun _ _ hrefused => hrefused.elim id (fun _ _ _ => id) fun _ _ _ _ => id)
      fun _ _ _ => trivial)
  · refine ⟨fun _ _ _ _ _ => trivial, fun call hcall hnone _ n hn => ?_⟩
    cases hn
    exact ⟨⟨call, hcall, rfl⟩, function?_eq_none_iff.mpr hnone⟩
  · intro file program hform
    have hinner := hready.file hform
    have hprepared := (hs.withImports hinner.sound.imports).fit
    have hfile := hinner.staysFit hprepared fun inner
      (_ : inner.During m.levels m.suspended _ _) => inner.permitted_lax
    exact hfile.blaming (fun _ _ _ => trivial) (Exec.ensures_of_succeeds fun inner hin =>
      h.2 inner (.inl ⟨file, program, hform, hin⟩))

/-- A second declaration of a name is refused, and nothing changes. -/
theorem outcome_of_redeclaration {declaration : Declaration}
    (hform : m.statement.form = .function declaration)
    (hdeclared : (m.state.function? declaration.name).isSome) :
    ∃ e, m.outcome = (.error e, m.state) ∧ e.cause = .functionAlreadyDeclared declaration.name := by
  have hrefused : Exec.Ensures (Exec.statement (callWithin m.levels) m.statement) m.state
      (fun e t => t = m.state ∧ e.cause = .functionAlreadyDeclared declaration.name)
      fun _ _ => False := by
    rw [Exec.statement_eq, hform, Exec.formOf]
    refine Exec.Ensures.decorate (Exec.Ensures.bind ?_)
    refine Exec.Ensures.bind (Exec.ensures_get ?_)
    rw [if_pos hdeclared]
    exact ⟨rfl, rfl⟩
  obtain ⟨e, t, hrun, rfl, hcause⟩ := hrefused.exists_error
  exact ⟨e, hrun, hcause⟩

end Moment

/-! ## Sessions -/

/-- The functions of the later state are those of the earlier one, with newer ones in front. -/
theorem shared_functions : Shared fun s t => s.functions <:+ t.functions where
  trans h h' := h.trans h'
  of_eq h _ := h ▸ List.suffix_rfl

theorem Moment.Ready.traces_functions {m : Moment} (h : m.Ready) :
    m.Traces fun s t => s.functions <:+ t.functions := by
  refine h.traces (shared_functions.permits ?_ ?_ ?_) ?_
  · exact fun _ _ _ _ => List.suffix_rfl
  · exact fun _ _ _ _ => List.suffix_rfl
  · exact fun _ _ _ _ => List.suffix_cons _ _
  · exact fun _ _ _ _ _ => List.suffix_rfl

theorem Session.grows_execute {s : State} {program : Program} (hsession : Session s)
    (hprogram : program.Loaded) : s.Grows .lax (s.execute program).2 :=
  hsession.fit.execute (hsession.readyFor hprogram) fun m _ => m.permitted_lax

section Sessions

variable {s : State} {program : Program} (hsession : Session s) (hprogram : program.Loaded)
  {m : Moment} (hm : m.During callLimit [] program.statements (s.prepare program))
include hsession hprogram hm

theorem Session.fit_during :
    s.Grows .lax m.state ∧ ∀ vars ∈ m.suspended, vars.Fit .lax m.state.functions := by
  have hready := hsession.readyFor hprogram
  have hprepared := hsession.fit.withImports hready.sound.imports
  obtain ⟨hgrows, hsuspended⟩ := hm.fit hready hprepared.fit
    (fun vars hvars => absurd hvars List.not_mem_nil) fun m _ => m.permitted_lax
  exact ⟨hprepared.trans hgrows, hsuspended⟩

theorem Session.grows_after : m.state.Grows .lax m.after :=
  (hm.ready (hsession.readyFor hprogram)).grows (hsession.fit_during hprogram hm).1.fit
    fun inner _ => inner.permitted_lax

/-- From the end of a statement to the end of the program. -/
theorem Session.grows_rest : m.after.Grows .lax (s.execute program).2 := by
  refine ⟨?_, (hsession.grows_execute hprogram).fit⟩
  rw [execute_state]
  exact shared_functions.after_during hm (hsession.readyFor hprogram)
    fun m _ hin => hin.traces_functions

theorem Session.backs_invocation {i : Invocation}
    (hi : i ∈ m.statement.form.invocations (callWithin m.levels) m.state) :
    i.state.Backs m.suspended i.values := by
  obtain ⟨hgrows, hsuspended⟩ := hsession.fit_during hprogram hm
  have hready := hm.ready (hsession.readyFor hprogram)
  have hfit := (hready.supplies hgrows.fit fun inner _ => inner.permitted_lax).1 i hi
  exact hfit.state.backs (fun vars hvars => (hsuspended vars hvars).mono
    (hready.invoked i hi).1.functions.subset) hfit.values

end Sessions

/-- References to functions never dangle.

* A name that is declared leads to the same function ever after, from one statement to the next, to
  the end of the program and on to the next program. A second declaration of the name is refused and
  changes nothing.
* Before and after each statement, and where a function is called, all names by which values refer
  to functions are declared: in the variables of all scopes, in the records, in the values that the
  call passes on. A function that an argument refers to can be called back.
* A run that fails because a function is not declared does so at a statement that calls it by a name
  that is written there. -/
theorem references_never_dangle {s : State} {program : Program} (hsession : Session s)
    (hprogram : program.Loaded) :
    (∀ m : Moment, m.During callLimit [] program.statements (s.prepare program) →
      s.Retains m.state ∧ m.state.Retains m.after ∧ m.after.Retains (s.execute program).2 ∧
      (∀ declaration, m.statement.form = .function declaration →
        (m.state.function? declaration.name).isSome →
        ∃ e, m.outcome = (.error e, m.state) ∧
          e.cause = .functionAlreadyDeclared declaration.name) ∧
      m.state.Backs m.suspended [] ∧ m.after.Backs m.suspended [] ∧
      ∀ i ∈ m.statement.form.invocations (callWithin m.levels) m.state,
        i.state.Backs m.suspended i.values) ∧
    s.Retains (s.execute program).2 ∧ (s.execute program).2.Backs [] [] ∧
    ∀ (e : Error) (name : String), (s.execute program).1 = .error e →
      e.cause = .undefinedFunction name →
      (∃ m : Moment, m.During callLimit [] program.statements (s.prepare program) ∧ m.IsOrigin) ∧
      ∀ m : Moment, m.During callLimit [] program.statements (s.prepare program) → m.IsOrigin →
        m.CallsUndeclared name := by
  have hend := hsession.grows_execute hprogram
  refine ⟨fun m hm => ?_, hend.retains, hend.fit.backs (by simp) (by simp),
    fun e name hexecute hcause => ?_⟩
  · obtain ⟨hgrows, hsuspended⟩ := hsession.fit_during hprogram hm
    have hafter := hsession.grows_after hprogram hm
    refine ⟨hgrows.retains, hafter.retains, (hsession.grows_rest hprogram hm).retains,
      fun declaration hform hdeclared => m.outcome_of_redeclaration hform hdeclared,
      hgrows.fit.backs hsuspended (by simp), hafter.fit.backs (fun vars hvars => ?_) (by simp),
      fun i hi => hsession.backs_invocation hprogram hm hi⟩
    exact (hsuspended vars hvars).mono hafter.subset
  · refine ⟨Moment.exists_isOrigin_of_execute hexecute, fun m hm horigin => ?_⟩
    obtain ⟨raised, hfails, hsame⟩ := horigin.exists_outcome hm hsession hprogram hexecute
    exact horigin.callsUndeclared (hm.ready (hsession.readyFor hprogram))
      (hsession.fit_during hprogram hm).1.fit hfails (hsame.trans hcause)

/-- The function that a statement of the form declares. -/
def Form.declaration? : Form → Option Declaration
  | .function declaration => some declaration
  | _ => none

theorem Form.declaration?_eq_some_iff {form : Form} {declaration : Declaration} :
    form.declaration? = some declaration ↔ form = .function declaration := by
  cases form <;> simp [declaration?]

/-- A function that is called back with itself in an array, and then declared again. -/
def redeclarationText : String :=
  "import \"Array\" " ++
  "function keep(x, i) \x7b return x \x7d " ++
  "var kept = Array.create(keep) " ++
  "var copy = Array.map(kept, keep) " ++
  "function keep(x) \x7b return x \x7d"

/-- The array that is made by the calls has a reference to the function in it, which is declared. To
declare it again fails and changes nothing. -/
theorem references_never_dangle_redeclaration :
    ∃ (program : Program) (m : Moment) (declaration : Declaration) (e : Error),
      Program.ofText? redeclarationText = some program ∧
      m.During callLimit [] program.statements (State.prepare {} program) ∧
      m.state.Holds m.suspended (.function { module := none, name := "keep" }) ∧
      (m.state.function? "keep").isSome ∧ m.statement.form = .function declaration ∧
      declaration.name = "keep" ∧ m.outcome = (.error e, m.state) ∧
      e.cause = .functionAlreadyDeclared "keep" := by
  have hruns : (Moment.ofText? redeclarationText {} 4).any (fun m =>
      m.statement.form.declaration?.any (fun declaration => decide (declaration.name = "keep")) &&
      (m.state.items? "copy").any (fun items => items.any fun item =>
        decide (item.ref? = some { module := none, name := "keep" }))) = true := by
    decide +kernel
  obtain ⟨m, hm, hfacts⟩ := (Option.any_eq_true _ _).mp hruns
  obtain ⟨hform, hitems⟩ := Bool.and_eq_true_iff.mp hfacts
  obtain ⟨declaration, hform, hname⟩ := (Option.any_eq_true _ _).mp hform
  obtain ⟨items, hcopy, hitems⟩ := (Option.any_eq_true _ _).mp hitems
  obtain ⟨item, hitem, href⟩ := List.any_eq_true.mp hitems
  obtain ⟨program, hprogram, htop⟩ := Moment.atTop_of_ofText? hm
  have hduring := Moment.during_of_nth? htop
  rw [Form.declaration?_eq_some_iff] at hform
  replace hname : declaration.name = "keep" := of_decide_eq_true hname
  have hitem' := Value.ref?_eq_some_iff.mp (of_decide_eq_true href)
  have hholds : m.state.Holds m.suspended (.function { module := none, name := "keep" }) :=
    (holds_of_items? hcopy _).within (.item hitem (hitem' ▸ .whole))
  obtain ⟨hmoments, -⟩ :=
    references_never_dangle (.start {}) (Program.loaded_of_ofText? hprogram)
  obtain ⟨-, -, -, hrefused, hbacks, -⟩ := hmoments m hduring
  have hdeclared := hbacks.held "keep" hholds
  obtain ⟨e, houtcome, hcause⟩ := hrefused declaration hform (hname ▸ hdeclared)
  exact ⟨program, m, declaration, e, hprogram, hduring, hholds, hdeclared, hform, hname, houtcome,
    hname ▸ hcause⟩

end Scripting
