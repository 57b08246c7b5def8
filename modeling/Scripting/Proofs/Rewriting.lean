import Scripting.Proofs.LikeStates
import Scripting.Proofs.Statements

/-!
# Runs of rewritten programs

A program can be rewritten without its runs being any different. A `Rewriting` maps functions to
functions and statements to statements. Of a function it may change the statements of the body only.
A statement stays what it is, except that it declares the rewritten function, or imports the
rewritten statements of a file.

So all that a run can notice is what calls do. If each call of a rewritten function does to the
rewritten state what the call of the function does to the state, then so does each statement
(`Exec.simulated_statement`). A rewriting may excuse some causes. A step that fails for one of them
need not be followed by its counterpart.
-/

namespace Scripting

/-- The form with other functions declared in it and other statements in the file that it
imports. -/
def Form.rewrite (function : Declaration → Declaration) (statement : Statement → Statement) :
    Form → Form
  | .function declaration => .function (function declaration)
  | .useFile file program =>
    .useFile file { program with statements := program.statements.map statement }
  | form => form

/-- A way to rewrite programs. -/
structure Rewriting where
  function : Declaration → Declaration
  statement : Statement → Statement
  /-- The causes for which a step may fail that its counterpart does not follow. -/
  excuses : Cause → Prop
  function_name : ∀ declaration, (function declaration).name = declaration.name
  function_params : ∀ declaration, (function declaration).params = declaration.params
  function_span : ∀ declaration, (function declaration).span = declaration.span
  function_file : ∀ declaration, (function declaration).file = declaration.file
  function_imports : ∀ declaration, (function declaration).body.imports = declaration.body.imports
  statement_form : ∀ st, (statement st).form = st.form.rewrite function statement
  statement_span : ∀ st, (statement st).span = st.span
  statement_scope : ∀ st, (statement st).scope = st.scope

/-- The state with all its functions rewritten. -/
def State.rewrite (s : State) (r : Rewriting) : State :=
  { s with functions := s.functions.map r.function }

namespace State

variable (s : State) (r : Rewriting)

@[simp] theorem vars_rewrite : (s.rewrite r).vars = s.vars := rfl

@[simp] theorem imports_rewrite : (s.rewrite r).imports = s.imports := rfl

@[simp] theorem cells_rewrite : (s.rewrite r).cells = s.cells := rfl

@[simp] theorem log_rewrite : (s.rewrite r).log = s.log := rfl

theorem function?_rewrite (name : String) :
    (s.rewrite r).function? name = (s.function? name).map r.function := by
  unfold function? rewrite
  rw [List.find?_map]
  simp only [Function.comp_def, r.function_name]

theorem meaning?_rewrite (name : String) : (s.rewrite r).meaning? name = s.meaning? name := by
  unfold meaning? plainMeaning?
  rw [function?_rewrite, Option.map_map]
  rfl

end State

namespace Exec

variable {α β : Type} {r : Rewriting} {invoke invoke' : Invoke}

/-- From the rewritten state the other step does what the step does from the state, and leads to the
rewritten state, unless the step fails for a cause that is excused. -/
def Simulated (r : Rewriting) (step other : Exec α) : Prop :=
  ∀ s : State, (∃ e, (s.run step).1 = .error e ∧ r.excuses e.cause) ∨
    (s.rewrite r).run other = ((s.run step).1, (s.run step).2.rewrite r)

/-! ## Rules -/

theorem simulated_pure (a : α) : Simulated r (pure a) (pure a) := fun _ => .inr rfl

theorem simulated_throw (e : Error) : Simulated r (throw e : Exec α) (throw e) :=
  fun _ => .inr rfl

theorem simulated_refuse (cause : Cause) (span : Span) :
    Simulated r (refuse cause span : Exec α) (refuse cause span) :=
  simulated_throw _

theorem simulated_lift (x : Except Error α) : Simulated r (liftM x : Exec α) (liftM x) := by
  intro s
  cases x with
  | ok a => exact .inr rfl
  | error e => exact .inr rfl

theorem simulated_get_bind {next next' : State → Exec β}
    (h : ∀ s : State, Simulated r (next s) (next' (s.rewrite r))) :
    Simulated r (get >>= next) (get >>= next') :=
  fun s => h s s

theorem simulated_modify {f : State → State} (h : ∀ s : State, f (s.rewrite r) = (f s).rewrite r) :
    Simulated r (modify f) (modify f) :=
  fun s => .inr (congrArg (Except.ok (), ·) (h s))

theorem Simulated.bind {step other : Exec α} {next next' : α → Exec β}
    (h : Simulated r step other) (hnext : ∀ a, Simulated r (next a) (next' a)) :
    Simulated r (step >>= next) (other >>= next') := by
  intro s
  rw [run_bind, run_bind]
  rcases h s with ⟨e, he, hcause⟩ | hsame
  · cases hrun : s.run step with
    | mk result t =>
      rw [hrun] at he
      cases he
      exact .inl ⟨e, rfl, hcause⟩
  · rw [hsame]
    cases s.run step with
    | mk result t =>
      cases result with
      | ok a => exact hnext a t
      | error e => exact .inr rfl

theorem Simulated.map {step other : Exec α} (h : Simulated r step other) (f : α → β) :
    Simulated r (f <$> step) (f <$> other) := by
  rw [map_eq_pure_bind, map_eq_pure_bind]
  exact h.bind fun a => simulated_pure (f a)

/-- Errors may be changed on their way out, but not their causes. -/
theorem Simulated.decorate {step other : Exec α} {f : Error → Error} (h : Simulated r step other)
    (hf : ∀ e, (f e).cause = e.cause) : Simulated r (decorate f step) (decorate f other) := by
  intro s
  rw [run_decorate, run_decorate]
  rcases h s with ⟨e, he, hcause⟩ | hsame
  · cases hrun : s.run step with
    | mk result t =>
      rw [hrun] at he
      cases he
      exact .inl ⟨f e, rfl, (hf e).symm ▸ hcause⟩
  · rw [hsame]
    cases s.run step with
    | mk result t =>
      cases result with
      | ok a => exact .inr rfl
      | error e => exact .inr rfl

theorem Simulated.orAt {step other : Exec α} (h : Simulated r step other) (span : Span) :
    Simulated r (Exec.decorate (·.orAt span) step) (Exec.decorate (·.orAt span) other) :=
  h.decorate fun _ => rfl

theorem Simulated.orUndo {step other : Exec α} {undo : State → State} (h : Simulated r step other)
    (hundo : ∀ s : State, undo (s.rewrite r) = (undo s).rewrite r) :
    Simulated r (orUndo step undo) (orUndo other undo) := by
  intro s
  rw [run_orUndo, run_orUndo]
  rcases h s with ⟨e, he, hcause⟩ | hsame
  · cases hrun : s.run step with
    | mk result t =>
      rw [hrun] at he
      cases he
      exact .inl ⟨e, rfl, hcause⟩
  · rw [hsame]
    cases s.run step with
    | mk result t =>
      cases result with
      | ok a => exact .inr rfl
      | error e => exact .inr (congrArg (Except.error e, ·) (hundo t))

theorem Simulated.inScope {step other : Exec α} (h : Simulated r step other) (vars : Variables)
    (imports : ImportTable) :
    Simulated r (inScope vars imports step) (inScope vars imports other) := by
  intro s
  rw [run_inScope, run_inScope]
  exact (h (s.nest vars imports)).imp id (congrArg (Prod.map id s.resume))

/-! ## Steps that leave functions alone -/

theorem simulated_makeCell (content : Option Value) :
    Simulated r (makeCell content) (makeCell content) :=
  fun _ => .inr rfl

theorem simulated_pushRecord (record : Record) :
    Simulated r (pushRecord record) (pushRecord record) :=
  simulated_modify fun _ => rfl

theorem simulated_replaceVariable (v : Variable) :
    Simulated r (replaceVariable v) (replaceVariable v) :=
  simulated_modify fun _ => rfl

theorem simulated_declareVariable (v : Variable) :
    Simulated r (declareVariable v) (declareVariable v) :=
  simulated_get_bind fun _ => (simulated_lift _).bind fun _ => simulated_modify fun _ => rfl

theorem simulated_assignVariable (name : String) (value : Value) :
    Simulated r (assignVariable name value) (assignVariable name value) :=
  simulated_get_bind fun _ => (simulated_lift _).bind fun _ => simulated_modify fun _ => rfl

theorem simulated_readVariable (name : String) :
    Simulated r (readVariable name) (readVariable name) :=
  simulated_get_bind fun _ => (simulated_lift _).bind fun _ =>
    (simulated_modify fun _ => rfl).bind fun _ => simulated_pure _

/-! ## Names and operands -/

theorem simulated_meaning (token : Token) : Simulated r (meaning token) (meaning token) := by
  refine simulated_get_bind fun s => ?_
  rw [s.meaning?_rewrite]
  split
  · exact simulated_pure _
  · exact simulated_refuse _ _

theorem simulated_nameValue (token : Token) : Simulated r (nameValue token) (nameValue token) := by
  refine simulated_get_bind fun s => ?_
  rw [s.vars_rewrite]
  split
  · exact (simulated_readVariable _).orAt _
  · refine (simulated_meaning token).bind fun meaning => ?_
    cases meaning with
    | value value => exact simulated_pure value
    | cell cell =>
      refine simulated_get_bind fun s => ?_
      rw [s.cells_rewrite]
      split
      · exact simulated_pure _
      · exact simulated_refuse _ _

theorem simulated_operand (token : Token) : Simulated r (operand token) (operand token) := by
  unfold operand
  split
  · exact simulated_lift _
  · exact simulated_lift _
  · exact simulated_lift _
  · exact simulated_nameValue token
  · exact simulated_refuse _ _

theorem simulated_operands (tokens : List Token) :
    Simulated r (operands tokens) (operands tokens) := by
  induction tokens with
  | nil => exact simulated_pure []
  | cons token tokens ih =>
    exact (simulated_operand token).bind fun _ => ih.bind fun _ => simulated_pure _

/-- A refusal leaves nothing to go on with. -/
theorem simulated_refuse_bind (cause : Cause) (span : Span) {next next' : α → Exec β} :
    Simulated r (refuse cause span >>= next) (refuse cause span >>= next') :=
  fun _ => .inr rfl

/-- A callback is found as a function of the state, and its counterpart as the rewritten one. -/
theorem simulated_callback_bind (token : Token) {next next' : Declaration → Exec β}
    (h : ∀ declaration, Simulated r (next declaration) (next' (r.function declaration))) :
    Simulated r (callback token >>= next) (callback token >>= next') := by
  unfold callback
  rw [bind_assoc, bind_assoc]
  refine (simulated_operand token).bind fun value => ?_
  split
  · next name =>
    rw [bind_assoc, bind_assoc]
    refine simulated_get_bind fun s => ?_
    rw [s.function?_rewrite]
    cases s.function? name with
    | none => exact simulated_refuse_bind _ _
    | some declaration => exact h declaration
  · exact simulated_refuse_bind _ _

theorem simulated_reference (name : String) (token : Token) :
    Simulated r (reference name token) (reference name token) := by
  refine (simulated_meaning token).bind fun meaning => ?_
  cases meaning with
  | value value => exact simulated_pure _
  | cell cell => exact (simulated_modify fun _ => rfl).bind fun _ => simulated_pure _

end Exec

theorem Rewriting.arity_function (r : Rewriting) (declaration : Declaration) :
    (r.function declaration).arity = declaration.arity := by
  unfold Declaration.arity
  rw [r.function_params]

/-- Each call of a rewritten function does what the call of the function does. -/
def Invoke.Simulated (r : Rewriting) (invoke invoke' : Invoke) : Prop :=
  ∀ declaration values span,
    Exec.Simulated r (invoke declaration values span) (invoke' (r.function declaration) values span)

namespace Exec

variable {r : Rewriting} {invoke invoke' : Invoke} (hinvoke : invoke.Simulated r invoke')

/-! ## Native functions -/

theorem simulated_argumentToken (site : CallSite) (index : Nat) :
    Simulated r (argumentToken site index) (argumentToken site index) := by
  unfold argumentToken
  split
  · exact simulated_pure _
  · exact simulated_throw _

theorem simulated_readLine (prompt : String) :
    Simulated r (readLine prompt) (readLine prompt) := by
  have hask : Simulated r (modifyGet fun state : State => ((state.console.read prompt).1,
      { state with console := (state.console.read prompt).2 }))
      (modifyGet fun state : State => ((state.console.read prompt).1,
        { state with console := (state.console.read prompt).2 })) := fun _ => .inr rfl
  refine hask.bind fun answer => ?_
  split
  · exact simulated_pure _
  · exact simulated_throw _

theorem simulated_overview : Simulated r overview overview := by
  refine simulated_get_bind fun s => ?_
  have hcount : (s.rewrite r).functions.length = s.functions.length := List.length_map _
  simp only [State.vars_rewrite, State.log_rewrite, State.imports_rewrite, hcount]
  exact simulated_pure _

include hinvoke

/-- The induction is on the requests. -/
theorem simulated_native {α : Type} (site : CallSite) (work : Native α) :
    Simulated r (native invoke site work) (native invoke' site work) := by
  induction work with
  | done result => exact simulated_pure result
  | fail e => exact simulated_throw e
  | argument index _ ih =>
    exact (simulated_argumentToken site index).bind fun token =>
      (simulated_operand token).bind fun value => ih value
  | callback index _ ih =>
    refine (simulated_argumentToken site index).bind fun token => ?_
    refine simulated_callback_bind token fun declaration => ?_
    rw [r.function_name, r.arity_function]
    exact ih _
  | invoke function values _ ih =>
    rw [native, native]
    refine simulated_get_bind fun s => ?_
    rw [s.function?_rewrite]
    cases s.function? function.name with
    | none => exact simulated_refuse _ _
    | some declaration =>
      exact (hinvoke declaration values site.span).bind fun result => ih result
  | lookup name _ ih =>
    refine simulated_get_bind fun s => ?_
    rw [s.vars_rewrite]
    split
    · exact (simulated_readVariable name).bind fun value => ih (some value)
    · exact ih none
  | assign name value _ ih => exact (simulated_assignVariable name value).bind fun _ => ih
  | write line _ ih => exact (simulated_modify fun _ => rfl).bind fun _ => ih
  | read prompt _ ih => exact (simulated_readLine prompt).bind fun line => ih line
  | inspect _ ih => exact simulated_overview.bind fun overview => ih overview

theorem simulated_callNative (module : String) (function : NativeFunction) (args : List Token)
    (span : Span) :
    Simulated r (callNative invoke module function args span)
      (callNative invoke' module function args span) := by
  unfold callNative
  split
  · exact (simulated_native hinvoke _ _).orAt span
  · exact simulated_refuse _ _

/-! ## Values -/

theorem simulated_moduleField (module : Module) (access : Access) :
    Simulated r (moduleField invoke module access) (moduleField invoke' module access) := by
  unfold moduleField
  split
  · exact simulated_refuse _ _
  · exact simulated_callNative hinvoke _ _ _ _
  · exact simulated_pure _
  · exact simulated_refuse _ _
  · exact simulated_pure _

omit hinvoke in
theorem simulated_mapField (access : Access) :
    Simulated r (mapField access) (mapField access) := by
  unfold mapField
  split
  · exact simulated_refuse _ _
  · refine (simulated_readVariable _).bind fun value => ?_
    split
    · split
      · exact simulated_pure _
      · exact simulated_refuse _ _
    · exact simulated_refuse _ _

theorem simulated_field (access : Access) :
    Simulated r (field invoke access) (field invoke' access) := by
  refine simulated_get_bind fun s => ?_
  rw [s.imports_rewrite, s.vars_rewrite]
  split
  · exact simulated_moduleField hinvoke _ access
  · split
    · exact simulated_mapField access
    · exact simulated_refuse _ _

theorem simulated_callDeclared (call : Call) :
    Simulated r (callDeclared invoke call) (callDeclared invoke' call) := by
  refine simulated_get_bind fun s => ?_
  rw [s.function?_rewrite]
  cases s.function? call.name with
  | none => exact simulated_refuse _ _
  | some declaration =>
    simp only [Option.map_some, r.arity_function]
    split
    · exact simulated_refuse _ _
    · exact (simulated_operands call.args).bind fun values => hinvoke declaration values call.span

theorem simulated_evaluate (expr : Expr) :
    Simulated r (evaluate invoke expr) (evaluate invoke' expr) := by
  have hvalue : Simulated r (evaluate? invoke expr) (evaluate? invoke' expr) := by
    cases expr with
    | literal token | reference token => exact (simulated_operand token).map some
    | call call => exact simulated_callDeclared hinvoke call
    | access access => exact simulated_field hinvoke access
  refine hvalue.bind fun value => ?_
  cases value with
  | some value => exact simulated_pure value
  | none => exact simulated_refuse _ _

/-! ## Bindings -/

theorem simulated_capture (owner : String) (cell : Cell) (expr : Expr) :
    Simulated r (capture invoke owner cell expr) (capture invoke' owner cell expr) :=
  (simulated_evaluate hinvoke expr).bind fun _ =>
    (simulated_modify fun _ => rfl).bind fun _ => simulated_pushRecord _

theorem simulated_declare (name : String) (expr : Expr) (span : Span) :
    Simulated r (declare invoke name expr span) (declare invoke' name expr span) := by
  refine simulated_get_bind fun s => ?_
  rw [s.vars_rewrite]
  split
  · exact simulated_refuse _ _
  · split
    · refine (simulated_makeCell none).bind fun cell => ?_
      refine (simulated_declareVariable _).bind fun _ => ?_
      exact (simulated_capture hinvoke name cell expr).orUndo fun _ => rfl
    · split
      · exact (simulated_reference name _).bind fun v => simulated_declareVariable v
      · exact (simulated_evaluate hinvoke _).bind fun value => simulated_declareVariable _

theorem simulated_rebind (name : String) (previous : Variable) (expr : Expr) :
    Simulated r (rebind invoke name previous expr) (rebind invoke' name previous expr) := by
  unfold rebind
  split
  · refine (simulated_makeCell none).bind fun cell => ?_
    refine (simulated_replaceVariable _).bind fun _ => ?_
    exact (simulated_capture hinvoke name cell expr).orUndo fun _ => rfl
  · split
    · refine (simulated_lift _).bind fun value => ?_
      refine (simulated_readVariable name).bind fun current => ?_
      split
      · exact simulated_refuse _ _
      · exact simulated_assignVariable name value
    · exact (simulated_reference name _).bind fun v => simulated_replaceVariable v
    · exact (simulated_evaluate hinvoke _).bind fun value => simulated_assignVariable name value

omit hinvoke in
theorem simulated_moveRecords (name : String) (previous : Cell) (span : Span) :
    Simulated r (moveRecords name previous span) (moveRecords name previous span) := by
  refine simulated_get_bind fun s => ?_
  rw [s.vars_rewrite, s.log_rewrite]
  dsimp only
  split
  · exact simulated_pure _
  · refine Simulated.bind (simulated_modify fun _ => rfl) fun _ => ?_
    split
    · refine (simulated_readVariable name).bind fun value => ?_
      refine (simulated_makeCell _).bind fun cell => ?_
      exact (simulated_replaceVariable _).bind fun _ => simulated_pushRecord _
    · exact simulated_pure _

theorem simulated_assign (name : String) (expr : Expr) (span : Span) :
    Simulated r (assign invoke name expr span) (assign invoke' name expr span) := by
  refine simulated_get_bind fun s => ?_
  rw [s.vars_rewrite]
  split
  · exact simulated_refuse _ _
  · next previous _ =>
    refine (simulated_rebind hinvoke name previous expr).bind fun _ => ?_
    split
    · exact simulated_moveRecords name _ span
    · exact simulated_pure _

theorem simulated_assignField (map field : String) (expr : Expr) (span : Span) :
    Simulated r (assignField invoke map field expr span)
      (assignField invoke' map field expr span) := by
  refine (simulated_readVariable map).bind fun current => ?_
  split
  · refine (simulated_evaluate hinvoke expr).bind fun value => ?_
    split
    · split
      · exact simulated_refuse _ _
      · exact simulated_assignVariable _ _
    · exact simulated_assignVariable _ _
  · exact simulated_refuse _ _

/-! ## Statements -/

omit hinvoke in
theorem simulated_declareFunction (declaration : Declaration) :
    Simulated r (declareFunction declaration) (declareFunction (r.function declaration)) := by
  refine simulated_get_bind fun s => ?_
  rw [s.function?_rewrite, r.function_name, r.function_span, Option.isSome_map]
  split
  · exact simulated_refuse _ _
  · exact fun _ => .inr rfl

theorem simulated_useField (access : Access) :
    Simulated r (useField invoke access) (useField invoke' access) := by
  refine (simulated_field hinvoke access).bind fun value => ?_
  split
  · exact (simulated_makeCell _).bind fun _ => simulated_pushRecord _
  · exact simulated_pure _

theorem simulated_returnValue (scope : Option String) (expr : Expr) (span : Span) :
    Simulated r (returnValue invoke scope expr span) (returnValue invoke' scope expr span) :=
  (simulated_evaluate hinvoke expr).bind fun _ =>
    (simulated_makeCell _).bind fun _ => (simulated_pushRecord _).bind fun _ => simulated_pure _

omit hinvoke in
/-- A step whose result does not matter, before going on. -/
theorem Simulated.goOn {α : Type} {step other : Exec α} (h : Simulated r step other) :
    Simulated r (step >>= fun _ => pure Flow.goOn) (other >>= fun _ => pure Flow.goOn) :=
  h.bind fun _ => simulated_pure _

omit hinvoke in
theorem simulated_statementsOf_of_forall {statements : List Statement}
    (h : ∀ st ∈ statements, Simulated r (statement invoke st) (statement invoke' (r.statement st))) :
    Simulated r (statementsOf invoke statements)
      (statementsOf invoke' (statements.map r.statement)) := by
  induction statements with
  | nil =>
    rw [List.map_nil, statementsOf, statementsOf]
    exact simulated_pure _
  | cons first rest ih =>
    rw [List.map_cons, statementsOf, statementsOf]
    refine (h first List.mem_cons_self).bind fun flow => ?_
    cases flow with
    | goOn => exact ih fun st hst => h st (List.mem_cons_of_mem _ hst)
    | returned value => exact simulated_pure _

/-- The induction is on the files that the statement imports. -/
theorem simulated_statement (st : Statement) :
    Simulated r (statement invoke st) (statement invoke' (r.statement st)) := by
  induction st using Statement.induction with
  | h st ih =>
    rw [statement_eq, statement_eq, r.statement_span, r.statement_scope, r.statement_form]
    refine Simulated.orAt ?_ st.span
    generalize st.form = form at ih ⊢
    cases form with
    | function declaration =>
      simp only [Form.rewrite, formOf]
      exact (simulated_declareFunction declaration).goOn
    | call call =>
      simp only [Form.rewrite, formOf]
      exact (simulated_callDeclared hinvoke call).goOn
    | access access =>
      simp only [Form.rewrite, formOf]
      exact (simulated_useField hinvoke access).goOn
    | declare name value =>
      simp only [Form.rewrite, formOf]
      exact (simulated_declare hinvoke name value st.span).goOn
    | assign target value =>
      cases target with
      | var name =>
        simp only [Form.rewrite, formOf]
        exact (simulated_assign hinvoke name value st.span).goOn
      | field map field =>
        simp only [Form.rewrite, formOf]
        exact (simulated_assignField hinvoke map field value st.span).goOn
    | returns value =>
      simp only [Form.rewrite, formOf]
      exact simulated_returnValue hinvoke st.scope value st.span
    | useModule module =>
      simp only [Form.rewrite, formOf]
      exact (simulated_modify fun _ => rfl).goOn
    | useFile file program =>
      simp only [Form.rewrite, formOf, programOf_eq]
      refine (simulated_modify fun _ => rfl).bind fun _ => ?_
      refine ((simulated_statementsOf_of_forall fun inner hinner => ?_).decorate ?_).goOn
      · exact ih file program rfl inner hinner
      · exact fun e => (e.inFile_eq file.path file.source).1

theorem simulated_statementsOf (statements : List Statement) :
    Simulated r (statementsOf invoke statements)
      (statementsOf invoke' (statements.map r.statement)) :=
  simulated_statementsOf_of_forall fun st _ => simulated_statement hinvoke st

/-! ## Calls -/

omit hinvoke in
theorem simulated_body {declaration : Declaration} (bound : List Variable)
    (h : Simulated r (statementsOf invoke declaration.body.statements)
      (statementsOf invoke' (r.function declaration).body.statements)) :
    Simulated r (body invoke declaration bound) (body invoke' (r.function declaration) bound) := by
  refine simulated_get_bind fun s => ?_
  have hclaim : (r.function declaration).claimError = declaration.claimError := by
    unfold Declaration.claimError
    rw [r.function_file]
  have hcause : ∀ e, (declaration.claimError e).cause = e.cause := by
    intro e
    unfold Declaration.claimError
    split
    · exact (e.inFile_eq _ _).1
    · rfl
  rw [s.imports_rewrite, r.function_imports, hclaim, programOf_eq, programOf_eq]
  refine ((h.inScope _ _).decorate hcause).bind fun flow => ?_
  cases flow with
  | goOn => exact simulated_pure _
  | returned value => exact simulated_pure _

end Exec

/-- Calls do the same with one more level left if the bodies of functions do the same. -/
theorem simulated_callWithin_succ {r : Rewriting} {levels levels' : Nat}
    (h : ∀ declaration : Declaration, Exec.Simulated r
      (Exec.statementsOf (callWithin levels) declaration.body.statements)
      (Exec.statementsOf (callWithin levels') (r.function declaration).body.statements)) :
    Invoke.Simulated r (callWithin (levels + 1)) (callWithin (levels' + 1)) := by
  intro declaration values span
  unfold callWithin
  rw [r.arity_function, r.function_name, r.function_params]
  split
  · exact Exec.simulated_refuse _ _
  · exact (Exec.simulated_lift _).bind fun bound => Exec.simulated_body bound (h declaration)

end Scripting
