import Scripting.Proofs.Invocations

/-!
# What statements depend on

What a statement does in a state is decided by two things outside it: how declared functions are run,
and in which order tables are gone through. It depends on the first only through the calls that it
makes, and on the second only through the names that it looks up, which `Form.lookups` lists as
`Form.invocations` lists the calls. If the calls end in the same way and the names mean the same, then
the statement does the same (`reordered_formOf`).

With the same order on both sides this says that a statement depends on how functions are run only
through the calls that are listed (`run_statement_congr`).
-/

namespace Scripting

open State

/-! ## The names that are looked up -/

/-- A name that is about to be looked up. -/
structure Lookup where
  name : String
  state : State

/-- The lookup for the value of an argument. Literals and variables need none. -/
def Token.lookups (token : Token) (s : State) : List Lookup :=
  if token.kind = .identifier && !s.vars.contains token.lexeme then [⟨token.lexeme, s⟩] else []

/-- The lookups for the values of some arguments, from left to right. -/
def Token.lookupsAll : List Token → State → List Lookup
  | [], _ => []
  | token :: tokens, s =>
    token.lookups s ++ s.after (Exec.operand token) fun _ t => lookupsAll tokens t

section Lists

variable (invoke : Invoke)

/-- The lookups for the arguments that a native function asks for. -/
def Native.lookups {α : Type} (site : CallSite) : Native α → State → List Lookup
  | .done _, _ | .fail _, _ => []
  | .argument index next, s =>
    s.after (Exec.argumentToken site index) fun token t =>
      token.lookups t ++ t.after (Exec.operand token) fun value u => (next value).lookups site u
  | .callback index next, s =>
    s.after (Exec.argumentToken site index) fun token t =>
      token.lookups t ++ t.after (Exec.callback token) fun declaration u =>
        (next { name := declaration.name, arity := declaration.arity }).lookups site u
  | .invoke function values next, s =>
    match s.function? function.name with
    | some declaration =>
      s.after (invoke declaration values site.span) fun result t => (next result).lookups site t
    | none => []
  | .lookup name next, s =>
    if s.vars.contains name then
      s.after (Exec.readVariable name) fun value t => (next (some value)).lookups site t
    else
      (next none).lookups site s
  | .assign name value next, s =>
    s.after (Exec.assignVariable name value) fun _ t => next.lookups site t
  | .write line next, s => next.lookups site { s with console := s.console.write line }
  | .read prompt next, s =>
    s.after (Exec.readLine prompt) fun line t => (next line).lookups site t
  | .inspect next, s =>
    s.after Exec.overview fun overview t => (next overview).lookups site t

/-- The lookups for the arguments of a call. -/
def Call.lookups (call : Call) (s : State) : List Lookup :=
  match s.function? call.name with
  | none => []
  | some declaration =>
    if declaration.arity ≠ call.args.length then [] else Token.lookupsAll call.args s

/-- The lookups of a function of a module. -/
def Module.lookups (module : Module) (access : Access) (s : State) : List Lookup :=
  match module.export? access.field, access.args with
  | some (.function function), some args =>
    let site : CallSite := { function := function.name, args, span := access.span }
    if function.arity.accepts args.length then (function.body site).lookups invoke site s else []
  | _, _ => []

/-- The lookups of a use of a field. -/
def Access.lookups (access : Access) (s : State) : List Lookup :=
  match s.imports.get? access.module with
  | some module => module.lookups invoke access s
  | none => []

/-- The lookups for the value of an expression. -/
def Expr.lookups (expr : Expr) (s : State) : List Lookup :=
  match expr with
  | .literal token | .reference token => token.lookups s
  | .call c => c.lookups s
  | .access a => a.lookups invoke s

/-- The lookups for binding a variable to an expression that is no call. What a name stands for is
looked up even if it is a variable. -/
def Expr.bindingLookups (expr : Expr) (s : State) : List Lookup :=
  match expr with
  | .reference token => [⟨token.lexeme, s⟩]
  | expr => expr.lookups invoke s

/-- The lookups of a statement of the form. Those in an imported file are not among them. -/
def Form.lookups (form : Form) (s : State) : List Lookup :=
  match form with
  | .call c => c.lookups s
  | .access a => a.lookups invoke s
  | .declare name value =>
    if s.vars.contains name then []
    else if value.isCall then
      s.after (Exec.makeCell none) fun cell t =>
        t.after (Exec.declareVariable (.ofCell name cell)) fun _ u => value.lookups invoke u
    else value.bindingLookups invoke s
  | .assign (.var name) value =>
    if !s.vars.contains name then []
    else if value.isCall then
      s.after (Exec.makeCell none) fun cell t =>
        t.after (Exec.replaceVariable (.ofCell name cell)) fun _ u => value.lookups invoke u
    else value.bindingLookups invoke s
  | .assign (.field map _) value =>
    s.after (Exec.readVariable map) fun current t =>
      match current with
      | .map _ => value.lookups invoke t
      | _ => []
  | .returns value => value.lookups invoke s
  | .function _ | .useModule _ | .useFile _ _ => []

end Lists

/-! ## Another order -/

/-- The state with its tables gone through in another order. -/
def State.inOrder (s : State) (order : Order) : State :=
  { s with scopes := { s.scopes with order } }

/-- The state with its tables gone through in another order, if there is one. -/
def State.reorder (s : State) : Option Order → State
  | none => s
  | some order => s.inOrder order

namespace State

variable (s : State) (order? : Option Order)

@[simp] theorem vars_reorder : (s.reorder order?).vars = s.vars := by cases order? <;> rfl

@[simp] theorem imports_reorder : (s.reorder order?).imports = s.imports := by cases order? <;> rfl

@[simp] theorem cells_reorder : (s.reorder order?).cells = s.cells := by cases order? <;> rfl

@[simp] theorem log_reorder : (s.reorder order?).log = s.log := by cases order? <;> rfl

@[simp] theorem functions_reorder : (s.reorder order?).functions = s.functions := by
  cases order? <;> rfl

@[simp] theorem console_reorder : (s.reorder order?).console = s.console := by cases order? <;> rfl

@[simp] theorem function?_reorder (name : String) :
    (s.reorder order?).function? name = s.function? name := by cases order? <;> rfl

end State

/-- The names mean the same in the other order. -/
def MeanAlike (order? : Option Order) (lookups : List Lookup) : Prop :=
  ∀ l ∈ lookups, (l.state.reorder order?).meaning? l.name = l.state.meaning? l.name

theorem MeanAlike.after {α : Type} {order? : Option Order} {s t : State} {step : Exec α}
    {next : α → State → List Lookup} {a : α} (h : MeanAlike order? (s.after step next))
    (hrun : s.run step = (.ok a, t)) : MeanAlike order? (next a t) :=
  fun l hl => h l (Exec.mem_after.mpr ⟨a, t, hrun, hl⟩)

theorem meanAlike_append {order? : Option Order} {lookups others : List Lookup} :
    MeanAlike order? (lookups ++ others) ↔ MeanAlike order? lookups ∧ MeanAlike order? others :=
  List.forall_mem_append

namespace Exec

variable {α β : Type} {s : State} {order? : Option Order} {invoke invoke' : Invoke}

/-- From the reordered state the other step does what the step does from the state, and leads to the
reordered state. -/
def Reordered (order? : Option Order) (s : State) (step other : Exec α) : Prop :=
  (s.reorder order?).run other = (s.run step).map id (·.reorder order?)

theorem reordered_pure (a : α) : Reordered order? s (pure a) (pure a) := rfl

theorem reordered_throw (e : Error) : Reordered order? s (throw e : Exec α) (throw e) := rfl

theorem reordered_refuse (cause : Cause) (span : Span) :
    Reordered order? s (refuse cause span : Exec α) (refuse cause span) := rfl

theorem reordered_lift (x : Except Error α) :
    Reordered order? s (liftM x : Exec α) (liftM x) := by
  cases x <;> rfl

theorem reordered_modify {f : State → State} (h : f (s.reorder order?) = (f s).reorder order?) :
    Reordered order? s (modify f) (modify f) :=
  congrArg (Except.ok (), ·) h

theorem reordered_get_bind {next next' : State → Exec β}
    (h : Reordered order? s (next s) (next' (s.reorder order?))) :
    Reordered order? s (get >>= next) (get >>= next') := h

theorem Reordered.bind {step other : Exec α} {next next' : α → Exec β}
    (h : Reordered order? s step other)
    (hnext : ∀ a t, s.run step = (.ok a, t) → Reordered order? t (next a) (next' a)) :
    Reordered order? s (step >>= next) (other >>= next') := by
  unfold Reordered at *
  rw [run_bind, run_bind, h]
  cases hrun : s.run step with
  | mk result t =>
    cases result with
    | ok a => exact hnext a t hrun
    | error e => rfl

theorem Reordered.map {step other : Exec α} (h : Reordered order? s step other) (f : α → β) :
    Reordered order? s (f <$> step) (f <$> other) := by
  rw [map_eq_pure_bind, map_eq_pure_bind]
  exact h.bind fun a _ _ => reordered_pure (f a)

theorem Reordered.decorate {step other : Exec α} (h : Reordered order? s step other)
    (f : Error → Error) : Reordered order? s (decorate f step) (decorate f other) := by
  unfold Reordered at *
  rw [run_decorate, run_decorate, h]
  rcases s.run step with ⟨_ | _, t⟩ <;> rfl

theorem Reordered.orUndo {step other : Exec α} (h : Reordered order? s step other)
    {undo : State → State} (hundo : ∀ t : State, undo (t.reorder order?) = (undo t).reorder order?) :
    Reordered order? s (orUndo step undo) (orUndo other undo) := by
  unfold Reordered at *
  rw [run_orUndo, run_orUndo, h]
  rcases s.run step with ⟨e | a, t⟩
  · exact congrArg (Except.error e, ·) (hundo t)
  · rfl

/-! ## Steps that look nothing up -/

theorem reordered_makeCell (content : Option Value) :
    Reordered order? s (makeCell content) (makeCell content) := by
  cases order? <;> rfl

theorem reordered_pushRecord (record : Record) :
    Reordered order? s (pushRecord record) (pushRecord record) :=
  reordered_modify (by cases order? <;> rfl)

theorem reordered_replaceVariable (v : Variable) :
    Reordered order? s (replaceVariable v) (replaceVariable v) :=
  reordered_modify (by cases order? <;> rfl)

theorem reordered_setVars (vars : Variables) :
    Reordered order? s (modify fun state => { state with vars })
      (modify fun state => { state with vars }) :=
  reordered_modify (by cases order? <;> rfl)

theorem reordered_declareVariable (v : Variable) :
    Reordered order? s (declareVariable v) (declareVariable v) := by
  refine reordered_get_bind ?_
  rw [vars_reorder]
  exact (reordered_lift _).bind fun vars _ _ => reordered_setVars vars

theorem reordered_assignVariable (name : String) (value : Value) :
    Reordered order? s (assignVariable name value) (assignVariable name value) := by
  refine reordered_get_bind ?_
  rw [vars_reorder]
  exact (reordered_lift _).bind fun vars _ _ => reordered_setVars vars

theorem reordered_readVariable (name : String) :
    Reordered order? s (readVariable name) (readVariable name) := by
  refine reordered_get_bind ?_
  rw [vars_reorder, cells_reorder]
  exact (reordered_lift _).bind fun read _ _ => (reordered_setVars read.2).bind fun _ _ _ =>
    reordered_pure read.1

theorem reordered_argumentToken (site : CallSite) (index : Nat) :
    Reordered order? s (argumentToken site index) (argumentToken site index) := by
  unfold argumentToken
  split
  · exact reordered_pure _
  · exact reordered_throw _

theorem reordered_readLine (prompt : String) :
    Reordered order? s (readLine prompt) (readLine prompt) := by
  refine Reordered.bind (by cases order? <;> rfl) fun answer t _ => ?_
  cases answer with
  | some line => exact reordered_pure line
  | none => exact reordered_throw _

theorem reordered_overview : Reordered order? s overview overview := by
  cases order? <;> rfl

theorem reordered_moveRecords (name : String) (previous : Cell) (span : Span) :
    Reordered order? s (moveRecords name previous span) (moveRecords name previous span) := by
  refine reordered_get_bind ?_
  rw [vars_reorder, log_reorder]
  dsimp only
  split
  · exact reordered_pure _
  · refine (reordered_modify (by cases order? <;> rfl)).bind fun _ _ _ => ?_
    split
    · exact (reordered_readVariable name).bind fun value _ _ =>
        (reordered_makeCell (some value)).bind fun cell _ _ =>
        (reordered_replaceVariable _).bind fun _ _ _ => reordered_pushRecord _
    · exact reordered_pure _

/-! ## Names -/

theorem reordered_meaning {token : Token}
    (h : (s.reorder order?).meaning? token.lexeme = s.meaning? token.lexeme) :
    Reordered order? s (meaning token) (meaning token) := by
  refine reordered_get_bind ?_
  rw [h]
  split
  · exact reordered_pure _
  · exact reordered_refuse _ _

theorem reordered_nameValue {token : Token} (hkind : token.kind = .identifier)
    (h : MeanAlike order? (token.lookups s)) :
    Reordered order? s (nameValue token) (nameValue token) := by
  refine reordered_get_bind ?_
  rw [vars_reorder]
  split
  · exact (reordered_readVariable _).decorate _
  · next hcontains =>
    rw [Token.lookups, if_pos (by simp [hkind, hcontains])] at h
    refine (reordered_meaning (h _ List.mem_cons_self)).bind fun meaning t _ => ?_
    cases meaning with
    | value value => exact reordered_pure value
    | cell cell =>
      refine reordered_get_bind ?_
      rw [cells_reorder]
      split
      · exact reordered_pure _
      · exact reordered_refuse _ _

theorem reordered_operand {token : Token} (h : MeanAlike order? (token.lookups s)) :
    Reordered order? s (operand token) (operand token) := by
  unfold operand
  split
  · exact reordered_lift _
  · exact reordered_lift _
  · exact reordered_lift _
  · next hkind => exact reordered_nameValue hkind h
  · exact reordered_refuse _ _

theorem reordered_operands {tokens : List Token}
    (h : MeanAlike order? (Token.lookupsAll tokens s)) :
    Reordered order? s (operands tokens) (operands tokens) := by
  induction tokens generalizing s with
  | nil => exact reordered_pure _
  | cons token tokens ih =>
    obtain ⟨hfirst, hrest⟩ := meanAlike_append.mp h
    exact (reordered_operand hfirst).bind fun first t ht =>
      (ih (hrest.after ht)).bind fun rest _ _ => reordered_pure _

theorem reordered_callback {token : Token} (h : MeanAlike order? (token.lookups s)) :
    Reordered order? s (callback token) (callback token) := by
  refine (reordered_operand h).bind fun value t _ => ?_
  split
  · refine reordered_get_bind ?_
    rw [function?_reorder]
    split
    · exact reordered_pure _
    · exact reordered_refuse _ _
  · exact reordered_refuse _ _

theorem reordered_reference {name : String} {token : Token}
    (h : (s.reorder order?).meaning? token.lexeme = s.meaning? token.lexeme) :
    Reordered order? s (reference name token) (reference name token) := by
  refine (reordered_meaning h).bind fun meaning t _ => ?_
  cases meaning with
  | value value => exact reordered_pure _
  | cell cell =>
    exact (reordered_modify (by cases order? <;> rfl)).bind fun _ _ _ => reordered_pure _

/-! ## Expressions -/

/-- The other way to run functions does the same with the calls, in the other order. -/
def AgreeIn (order? : Option Order) (invoke invoke' : Invoke) (calls : List Invocation) : Prop :=
  ∀ i ∈ calls, Reordered order? i.state (invoke i.function i.values i.span)
    (invoke' i.function i.values i.span)

theorem AgreeIn.after {step : Exec α} {next : α → State → List Invocation} {a : α} {t : State}
    (h : AgreeIn order? invoke invoke' (s.after step next)) (hrun : s.run step = (.ok a, t)) :
    AgreeIn order? invoke invoke' (next a t) :=
  fun i hi => h i (mem_after.mpr ⟨a, t, hrun, hi⟩)

theorem reordered_native {site : CallSite} {work : Native α}
    (hcalls : AgreeIn order? invoke invoke' (work.invocations invoke site s))
    (h : MeanAlike order? (work.lookups invoke site s)) :
    Reordered order? s (native invoke site work) (native invoke' site work) := by
  induction work generalizing s with
  | done result => exact reordered_pure result
  | fail error => exact reordered_throw error
  | argument index next ih =>
    rw [native, native]
    refine (reordered_argumentToken site index).bind fun token t ht => ?_
    obtain ⟨hfirst, hrest⟩ := meanAlike_append.mp (h.after ht)
    exact (reordered_operand hfirst).bind fun value u hu =>
      ih value ((hcalls.after ht).after hu) (hrest.after hu)
  | callback index next ih =>
    rw [native, native]
    refine (reordered_argumentToken site index).bind fun token t ht => ?_
    obtain ⟨hfirst, hrest⟩ := meanAlike_append.mp (h.after ht)
    exact (reordered_callback hfirst).bind fun declaration u hu =>
      ih _ ((hcalls.after ht).after hu) (hrest.after hu)
  | invoke function values next ih =>
    rw [native, native]
    rw [Native.invocations] at hcalls
    rw [Native.lookups] at h
    refine reordered_get_bind ?_
    rw [function?_reorder]
    split
    · next declaration hfunction =>
      rw [hfunction] at hcalls h
      have hrest : AgreeIn order? invoke invoke'
          (s.after (invoke declaration values site.span) fun result t =>
            (next result).invocations invoke site t) :=
        fun i hi => hcalls i (List.mem_cons_of_mem _ hi)
      exact Reordered.bind (hcalls _ List.mem_cons_self) fun result t ht =>
        ih result (hrest.after ht) (h.after ht)
    · exact reordered_refuse _ _
  | lookup name next ih =>
    rw [native, native]
    rw [Native.invocations] at hcalls
    rw [Native.lookups] at h
    refine reordered_get_bind ?_
    rw [vars_reorder]
    split
    · next hcontains =>
      rw [if_pos hcontains] at hcalls h
      exact (reordered_readVariable name).bind fun value t ht =>
        ih _ (hcalls.after ht) (h.after ht)
    · next hcontains =>
      rw [if_neg hcontains] at hcalls h
      exact ih none hcalls h
  | assign name value next ih =>
    rw [native, native]
    exact (reordered_assignVariable name value).bind fun _ t ht =>
      ih (hcalls.after ht) (h.after ht)
  | write line next ih =>
    rw [native, native]
    refine (reordered_modify (by cases order? <;> rfl)).bind fun _ t ht => ?_
    cases ht
    exact ih hcalls h
  | read prompt next ih =>
    rw [native, native]
    exact (reordered_readLine prompt).bind fun line t ht =>
      ih line (hcalls.after ht) (h.after ht)
  | inspect next ih =>
    rw [native, native]
    exact reordered_overview.bind fun overview t ht =>
      ih overview (hcalls.after ht) (h.after ht)

theorem reordered_callDeclared {call : Call}
    (hcalls : AgreeIn order? invoke invoke' (call.invocations s))
    (h : MeanAlike order? (call.lookups s)) :
    Reordered order? s (callDeclared invoke call) (callDeclared invoke' call) := by
  unfold Call.invocations at hcalls
  unfold Call.lookups at h
  refine reordered_get_bind ?_
  rw [function?_reorder]
  cases hfunction : s.function? call.name with
  | none => exact reordered_refuse _ _
  | some declaration =>
    rw [hfunction] at hcalls h
    dsimp only at hcalls h ⊢
    split
    · exact reordered_refuse _ _
    · next harity =>
      rw [if_neg harity] at hcalls h
      exact (reordered_operands h).bind fun values t ht =>
        hcalls.after ht _ (List.mem_singleton.mpr rfl)

theorem reordered_moduleField {module : Module} {access : Access}
    (hcalls : AgreeIn order? invoke invoke' (module.invocations invoke access s))
    (h : MeanAlike order? (module.lookups invoke access s)) :
    Reordered order? s (moduleField invoke module access) (moduleField invoke' module access) := by
  unfold moduleField
  split
  · exact reordered_refuse _ _
  · next function args hexport hargs =>
    unfold Module.invocations at hcalls
    unfold Module.lookups at h
    rw [hexport, hargs] at hcalls h
    unfold callNative
    split
    · next haccepts =>
      simp only [haccepts, if_true] at hcalls h
      exact (reordered_native hcalls h).decorate _
    · exact reordered_refuse _ _
  · exact reordered_pure _
  · exact reordered_refuse _ _
  · exact reordered_pure _

theorem reordered_mapField (access : Access) :
    Reordered order? s (mapField access) (mapField access) := by
  unfold mapField
  split
  · exact reordered_refuse _ _
  · refine (reordered_readVariable _).bind fun current t _ => ?_
    split
    · split
      · exact reordered_pure _
      · exact reordered_refuse _ _
    · exact reordered_refuse _ _

theorem reordered_field {access : Access}
    (hcalls : AgreeIn order? invoke invoke' (access.invocations invoke s))
    (h : MeanAlike order? (access.lookups invoke s)) :
    Reordered order? s (field invoke access) (field invoke' access) := by
  unfold Access.invocations at hcalls
  unfold Access.lookups at h
  refine reordered_get_bind ?_
  rw [imports_reorder, vars_reorder]
  cases hmodule : s.imports.get? access.module with
  | none =>
    dsimp only
    split
    · exact reordered_mapField access
    · exact reordered_refuse _ _
  | some module =>
    rw [hmodule] at hcalls h
    exact reordered_moduleField hcalls h

theorem reordered_evaluate {expr : Expr}
    (hcalls : AgreeIn order? invoke invoke' (expr.invocations invoke s))
    (h : MeanAlike order? (expr.lookups invoke s)) :
    Reordered order? s (evaluate invoke expr) (evaluate invoke' expr) := by
  have hvalue : Reordered order? s (evaluate? invoke expr) (evaluate? invoke' expr) := by
    cases expr with
    | literal token => exact (reordered_operand h).map some
    | reference token => exact (reordered_operand h).map some
    | call call => exact reordered_callDeclared hcalls h
    | access access => exact reordered_field hcalls h
  refine hvalue.bind fun value t _ => ?_
  cases value with
  | some value => exact reordered_pure value
  | none => exact reordered_refuse _ _

/-! ## Statements -/

theorem reordered_capture {owner : String} {cell : Cell} {expr : Expr}
    (hcalls : AgreeIn order? invoke invoke' (expr.invocations invoke s))
    (h : MeanAlike order? (expr.lookups invoke s)) :
    Reordered order? s (capture invoke owner cell expr) (capture invoke' owner cell expr) :=
  (reordered_evaluate hcalls h).bind fun value _ _ =>
    (reordered_modify (by cases order? <;> rfl)).bind fun _ _ _ => reordered_pushRecord _

theorem agreeIn_of_not_isCall {expr : Expr} (h : ¬ expr.isCall) :
    AgreeIn order? invoke invoke' (expr.invocations invoke s) := by
  rw [invocations_of_not_isCall h]
  exact fun i hi => absurd hi List.not_mem_nil

theorem reordered_declare {name : String} {expr : Expr} {span : Span}
    (hcalls : AgreeIn order? invoke invoke' ((Form.declare name expr).invocations invoke s))
    (h : MeanAlike order? ((Form.declare name expr).lookups invoke s)) :
    Reordered order? s (declare invoke name expr span) (declare invoke' name expr span) := by
  rw [Form.invocations] at hcalls
  rw [Form.lookups] at h
  refine reordered_get_bind ?_
  rw [vars_reorder]
  split
  · exact reordered_refuse _ _
  · next hcontains =>
    rw [if_neg hcontains] at h
    split
    · next hcall =>
      rw [if_pos (by simp [hcontains, hcall])] at hcalls
      rw [if_pos hcall] at h
      refine (reordered_makeCell none).bind fun cell t ht =>
        (reordered_declareVariable _).bind fun _ u hu => ?_
      exact (reordered_capture ((hcalls.after ht).after hu)
        ((h.after ht).after hu)).orUndo fun _ => by cases order? <;> rfl
    · next hcall =>
      rw [if_neg hcall] at h
      split
      · exact (reordered_reference (h _ List.mem_cons_self)).bind fun v _ _ =>
          reordered_declareVariable v
      · next hother =>
        rw [Expr.bindingLookups.eq_2 _ _ _ hother] at h
        exact (reordered_evaluate (agreeIn_of_not_isCall hcall) h).bind fun value _ _ =>
          reordered_declareVariable _

theorem reordered_rebind {name : String} {previous : Variable} {expr : Expr}
    (hget : s.vars.get? name = some previous)
    (hcalls : AgreeIn order? invoke invoke' ((Form.assign (.var name) expr).invocations invoke s))
    (h : MeanAlike order? ((Form.assign (.var name) expr).lookups invoke s)) :
    Reordered order? s (rebind invoke name previous expr) (rebind invoke' name previous expr) := by
  have hcontains : s.vars.contains name = true := by rw [Variables.contains_eq_isSome, hget]; rfl
  rw [Form.invocations] at hcalls
  rw [Form.lookups, if_neg (by simp [hcontains])] at h
  unfold rebind
  split
  · next hcall =>
    rw [if_pos (by simp [hcontains, hcall])] at hcalls
    rw [if_pos hcall] at h
    refine (reordered_makeCell none).bind fun cell t ht =>
      (reordered_replaceVariable _).bind fun _ u hu => ?_
    exact (reordered_capture ((hcalls.after ht).after hu)
      ((h.after ht).after hu)).orUndo fun _ => by cases order? <;> rfl
  · next hcall =>
    rw [if_neg hcall] at h
    split
    · refine (reordered_lift _).bind fun value _ _ =>
        (reordered_readVariable name).bind fun current _ _ => ?_
      split
      · exact reordered_refuse _ _
      · exact reordered_assignVariable name value
    · exact (reordered_reference (h _ List.mem_cons_self)).bind fun v _ _ =>
        reordered_replaceVariable v
    · next _ hother =>
      rw [Expr.bindingLookups.eq_2 _ _ _ hother] at h
      exact (reordered_evaluate (agreeIn_of_not_isCall hcall) h).bind fun value _ _ =>
        reordered_assignVariable name value

theorem reordered_assign {name : String} {expr : Expr} {span : Span}
    (hcalls : AgreeIn order? invoke invoke' ((Form.assign (.var name) expr).invocations invoke s))
    (h : MeanAlike order? ((Form.assign (.var name) expr).lookups invoke s)) :
    Reordered order? s (assign invoke name expr span) (assign invoke' name expr span) := by
  refine reordered_get_bind ?_
  rw [vars_reorder]
  cases hget : s.vars.get? name with
  | none => exact reordered_refuse _ _
  | some previous =>
    refine (reordered_rebind hget hcalls h).bind fun _ t _ => ?_
    split
    · exact reordered_moveRecords _ _ _
    · exact reordered_pure _

theorem reordered_assignField {map field : String} {expr : Expr} {span : Span}
    (hcalls : AgreeIn order? invoke invoke'
      ((Form.assign (.field map field) expr).invocations invoke s))
    (h : MeanAlike order? ((Form.assign (.field map field) expr).lookups invoke s)) :
    Reordered order? s (assignField invoke map field expr span)
      (assignField invoke' map field expr span) := by
  rw [Form.invocations] at hcalls
  rw [Form.lookups] at h
  refine (reordered_readVariable map).bind fun current t ht => ?_
  replace hcalls := hcalls.after ht
  replace h := h.after ht
  cases current with
  | map fields =>
    refine (reordered_evaluate hcalls h).bind fun value u _ => ?_
    split
    · split
      · exact reordered_refuse _ _
      · exact reordered_assignVariable _ _
    · exact reordered_assignVariable _ _
  | _ => exact reordered_refuse _ _

theorem reordered_declareFunction (declaration : Declaration) :
    Reordered order? s (declareFunction declaration) (declareFunction declaration) := by
  refine reordered_get_bind ?_
  rw [function?_reorder]
  split
  · exact reordered_refuse _ _
  · exact reordered_modify (by cases order? <;> rfl)

theorem reordered_useField {access : Access}
    (hcalls : AgreeIn order? invoke invoke' (access.invocations invoke s))
    (h : MeanAlike order? (access.lookups invoke s)) :
    Reordered order? s (useField invoke access) (useField invoke' access) := by
  refine (reordered_field hcalls h).bind fun value t _ => ?_
  split
  · exact (reordered_makeCell _).bind fun _ _ _ => reordered_pushRecord _
  · exact reordered_pure _

/-- A statement does the same in another order and with another way to run functions, if the calls
end in the same way and the names mean the same. -/
theorem reordered_formOf {form : Form} (hfile : ∀ file program, form ≠ .useFile file program)
    (hcalls : AgreeIn order? invoke invoke' (form.invocations invoke s))
    (h : MeanAlike order? (form.lookups invoke s)) (span : Span) (scope : Option String) :
    Reordered order? s (formOf invoke span scope form) (formOf invoke' span scope form) := by
  cases form with
  | function declaration =>
    rw [formOf, formOf]
    exact (reordered_declareFunction declaration).bind fun _ _ _ => reordered_pure _
  | useModule module =>
    rw [formOf, formOf]
    exact (reordered_modify (by cases order? <;> rfl)).bind fun _ _ _ => reordered_pure _
  | useFile file program => exact absurd rfl (hfile file program)
  | call call =>
    rw [formOf, formOf]
    exact (reordered_callDeclared hcalls h).bind fun _ _ _ => reordered_pure _
  | access access =>
    rw [formOf, formOf]
    exact (reordered_useField hcalls h).bind fun _ _ _ => reordered_pure _
  | declare name value =>
    rw [formOf, formOf]
    exact (reordered_declare hcalls h).bind fun _ _ _ => reordered_pure _
  | assign target value =>
    cases target with
    | var name =>
      rw [formOf, formOf]
      exact (reordered_assign hcalls h).bind fun _ _ _ => reordered_pure _
    | field map field =>
      rw [formOf, formOf]
      exact (reordered_assignField hcalls h).bind fun _ _ _ => reordered_pure _
  | returns value =>
    rw [formOf, formOf]
    exact (reordered_evaluate hcalls h).bind fun value _ _ =>
      (reordered_makeCell _).bind fun _ _ _ => (reordered_pushRecord _).bind fun _ _ _ =>
        reordered_pure _

/-! ## Another way to run functions -/

/-- Two ways to run functions that agree on some calls. -/
def AgreeOn (invoke invoke' : Invoke) (calls : List Invocation) : Prop :=
  ∀ i ∈ calls, i.run invoke' = i.run invoke

theorem run_decorate_congr {f : Error → Error} {step step' : Exec α}
    (h : s.run step' = s.run step) : s.run (decorate f step') = s.run (decorate f step) := by
  rw [run_decorate, run_decorate, h]

/-- What a statement of an imported file does is independent of how functions are run. -/
theorem run_statement_of_isExport {st : Statement} (hexport : st.form.IsExport)
    (hstandard : ∀ form ∈ st.form.forms, form.Standard) (s : State) :
    s.run (statement invoke' st) = s.run (statement invoke st) := by
  induction st using Statement.induction generalizing s with
  | h st ih =>
    rw [statement_eq, statement_eq]
    refine run_decorate_congr ?_
    cases hform : st.form with
    | function declaration => rw [formOf, formOf]
    | useModule module => rw [formOf, formOf]
    | useFile file program =>
      have hfile := hstandard st.form (mem_forms_self st.form)
      rw [hform] at hfile
      have hinner : ∀ (statements : List Statement), statements ⊆ program.statements → ∀ s : State,
          s.run (statementsOf invoke' statements) = s.run (statementsOf invoke statements) := by
        intro statements hsubset
        induction statements with
        | nil => exact fun s => by rw [statementsOf, statementsOf]
        | cons first rest ihrest =>
          intro s
          obtain ⟨hfirst, hrest⟩ := List.cons_subset.mp hsubset
          rw [statementsOf, statementsOf, run_bind, run_bind,
            ih file program hform first hfirst (hfile.2 first hfirst) (fun form hin =>
              hstandard form (by
                rw [hform, Form.forms, Program.forms_eq]
                exact List.mem_cons_of_mem _ (mem_formsOf.mpr ⟨first, hfirst, hin⟩))) s]
          split
          · next flow t _ =>
            cases flow with
            | goOn => exact ihrest hrest t
            | returned value => rfl
          · rfl
      rw [formOf, formOf, programOf_eq, programOf_eq]
      refine run_bind_congr fun _ t _ => ?_
      rw [run_bind, run_bind, run_decorate_congr (hinner _ (List.Subset.refl _) t)]
    | _ =>
      rw [hform] at hexport
      cases hexport

/-- A statement depends on how functions are run only through the calls that are listed. -/
theorem run_statement_congr {st : Statement} (hstandard : ∀ form ∈ st.form.forms, form.Standard)
    (h : AgreeOn invoke invoke' (st.form.invocations invoke s)) :
    s.run (statement invoke' st) = s.run (statement invoke st) := by
  by_cases hexport : st.form.IsExport
  · exact run_statement_of_isExport hexport hstandard s
  · have hcalls : AgreeIn none invoke invoke' (st.form.invocations invoke s) := fun i hi => h i hi
    have hform : Reordered none s (formOf invoke st.span st.scope st.form)
        (formOf invoke' st.span st.scope st.form) := by
      refine reordered_formOf (fun file program hfile => hexport ?_) hcalls (fun _ _ => rfl) _ _
      rw [hfile]
      trivial
    rw [statement_eq, statement_eq]
    exact hform.decorate _

end Exec

end Scripting
