import Scripting.Proofs.Asking
import Scripting.Proofs.Attribution

/-!
# Who can see a pending result

A variable waits for the result of a call only while the statement that binds it to the result is
running. The call runs elsewhere, in scopes of its own, and no record stands for the result yet. What
is left are the arguments of the call, which are read in the scope of the variable: a step that reads
arguments fails because of a variable that waits only if it is one of the arguments, and succeeds
only if it is none of them (`Exec.Consults`). All calls read all their arguments. So a statement can
see a pending result only if it binds a variable to the result of a call on the variable itself, and
then it always does (`pending_only_in_self_capture`).
-/

namespace Scripting

open State

/-- The names among some arguments. -/
def argumentNames (args : List Token) : List String :=
  (args.filter (·.kind = .identifier)).map Token.lexeme

theorem argumentNames_cons (token : Token) (args : List Token) :
    argumentNames (token :: args) = argumentNames [token] ++ argumentNames args := by
  unfold argumentNames
  rw [← List.map_append, ← List.filter_append, List.singleton_append]

theorem argumentNames_of_identifier {token : Token} (h : token.kind = .identifier) :
    argumentNames [token] = [token.lexeme] := by
  simp [argumentNames, h]

theorem argumentNames_of_other {token : Token} (h : token.kind ≠ .identifier) :
    argumentNames [token] = [] := by
  simp [argumentNames, h]

theorem argumentNames_drop {args : List Token} {asked : Nat} {token : Token}
    (h : args[asked]? = some token) :
    argumentNames (args.drop asked) =
      argumentNames [token] ++ argumentNames (args.drop (asked + 1)) := by
  rw [List.drop_eq_getElem?_toList_append, h, Option.toList_some, List.singleton_append,
    argumentNames_cons]

/-- The arguments that an expression calls something on. -/
def Expr.args : Expr → List Token
  | .call c => c.args
  | .access a => a.args.getD []
  | _ => []

/-- No call of a declared function fails because of a variable that waits. -/
def Invoke.Resolves (invoke : Invoke) : Prop :=
  ∀ declaration values span s, Exec.Ensures (invoke declaration values span) s
    (fun e _ => ¬ e.cause.IsUnresolved) fun _ _ => True

theorem State.Advances.waits_iff {D : Discipline} {I : Prop} {s t : State}
    (h : Advances D ∅ I s t) (name : String) : t.Waits name ↔ s.Waits name := by
  unfold Waits
  rw [h.view name (Set.notMem_empty name)]

theorem State.not_waits_of_contains {s : State} {name : String} (h : ¬ s.vars.contains name = true) :
    ¬ s.Waits name := by
  rintro ⟨cell, hview⟩
  have hnone : s.vars.get? name = none :=
    Variables.get?_eq_none_of_contains (Bool.eq_false_iff.mpr h)
  rw [view_eq_none_iff.mpr hnone] at hview
  cases hview

namespace Exec

variable {α β : Type} {D : Discipline} {calls : Prop} {names names' : List String} {s t : State}
  {invoke : Invoke}

/-- The step fails because of a variable that waits only if it is one of the names, and succeeds only
if none of the names waits. The former holds on a condition, on what is known of calls. -/
def Consults (calls : Prop) (names : List String) (s : State) (step : Exec α) : Prop :=
  Ensures step s (fun e _ => calls → ∀ n, e.cause = .unresolvedCall n → n ∈ names ∧ s.Waits n)
    fun _ _ => ∀ n ∈ names, ¬ s.Waits n

/-- The step does not fail because of a variable that waits. -/
abbrev Resolves (calls : Prop) (s : State) (step : Exec α) : Prop :=
  Ensures step s (fun e _ => calls → ¬ e.cause.IsUnresolved) fun _ _ => True

/-! ## Rules -/

theorem consults_throw {e : Error} (h : ¬ e.cause.IsUnresolved) :
    Consults calls names s (throw e : Exec α) :=
  fun _ n hn => absurd hn (Cause.ne_of_not_isUnresolved h n)

theorem consults_refuse {cause : Cause} (h : ¬ cause.IsUnresolved) (span : Span) :
    Consults calls names s (refuse cause span : Exec α) :=
  consults_throw h

theorem consults_pure (a : α) : Consults calls [] s (pure a) :=
  fun _ hn => absurd hn List.not_mem_nil

/-- With no names, all that is said is that the step does not fail because of a variable. -/
theorem consults_nil {step : Exec α} (h : Resolves calls s step) : Consults calls [] s step := by
  refine Ensures.imp h (fun e _ he hcalls n hn => ?_) fun _ _ _ _ hn => absurd hn List.not_mem_nil
  exact absurd hn (Cause.ne_of_not_isUnresolved (he hcalls) n)

theorem Consults.resolves {step : Exec α} (h : Consults calls [] s step) :
    Resolves calls s step := by
  refine Ensures.imp h (fun e _ he hcalls hunresolved => ?_) fun _ _ _ => trivial
  obtain ⟨n, hn⟩ := hunresolved.exists_eq
  exact List.not_mem_nil (he hcalls n hn).1

theorem Consults.bind {step : Exec α} {next : α → Exec β} (h : Consults calls names s step)
    (hkeeps : Keeps D ∅ False s step)
    (hnext : ∀ a t, t.Sound D → Consults calls names' t (next a)) :
    Consults calls (names ++ names') s (step >>= next) := by
  refine Ensures.bind ((Ensures.and h hkeeps).imp ?_ ?_)
  · intro e t he hcalls n hn
    obtain ⟨hmem, hwaits⟩ := he.1 hcalls n hn
    exact ⟨List.mem_append_left _ hmem, hwaits⟩
  · rintro a t ⟨hread, ht⟩
    refine (hnext a t ht.sound).imp ?_ ?_
    · intro e u he hcalls n hn
      obtain ⟨hmem, hwaits⟩ := he hcalls n hn
      exact ⟨List.mem_append_right _ hmem, (ht.waits_iff n).mp hwaits⟩
    · intro b u hrest n hn
      rcases List.mem_append.mp hn with hn | hn
      · exact hread n hn
      · exact mt (ht.waits_iff n).mpr (hrest n hn)

/-- A step that reads nothing, before one that does. -/
theorem Consults.after {step : Exec α} {next : α → Exec β}
    (hstep : Resolves calls s step) (hkeeps : Keeps D ∅ False s step)
    (hnext : ∀ a t, t.Sound D → Consults calls names t (next a)) :
    Consults calls names s (step >>= next) :=
  Consults.bind (consults_nil hstep) hkeeps hnext

theorem Consults.decorate {step : Exec α} {f : Error → Error} (h : Consults calls names s step)
    (hf : ∀ e, (f e).cause = e.cause) : Consults calls names s (decorate f step) := by
  refine Ensures.decorate (Ensures.imp h (fun e _ he hcalls n hn => he hcalls n ?_) fun _ _ ha => ha)
  rwa [hf] at hn

theorem Resolves.bind {step : Exec α} {next : α → Exec β} (h : Resolves calls s step)
    (hnext : ∀ a t, Resolves calls t (next a)) : Resolves calls s (step >>= next) :=
  Ensures.bind (Ensures.imp h (fun _ _ he => he) fun a t _ => hnext a t)

/-! ## Reading variables and arguments -/

theorem consults_readVariable (s : State) (name : String) :
    Consults calls [name] s (readVariable name) := by
  refine Ensures.bind (ensures_get (Ensures.bind (ensures_lift ?_ ?_)))
  · rintro ⟨value, vars⟩ hread n hn ⟨cell, hview⟩
    rw [List.mem_singleton.mp hn] at hview
    unfold Variables.read at hread
    split at hread
    · cases hread
    · next v hget =>
      rw [view_eq_some hget] at hview
      split at hread
      · cases hread
      · next hpeek =>
        rw [hpeek] at hview
        cases hview
  · intro e hread _ n hn
    unfold Variables.read at hread
    split at hread
    · cases hread
      cases hn
    · next v hget =>
      split at hread
      · next hpeek =>
        cases hread
        cases hn
        exact ⟨List.mem_singleton_self _, v.cell, by rw [view_eq_some hget, hpeek]⟩
      · cases hread

/-- A name that is no variable does not lead to a pending result: the records of the log stand for
results that are there. -/
theorem consults_nameValue (hs : s.Sound D) (token : Token) :
    Consults calls [token.lexeme] s (nameValue token) := by
  refine Ensures.bind (ensures_get ?_)
  split
  · exact (consults_readVariable s token.lexeme).decorate fun _ => rfl
  · next hcontains =>
    have hfree : ∀ n ∈ [token.lexeme], ¬ s.Waits n := by
      intro n hn
      rw [List.mem_singleton.mp hn]
      exact not_waits_of_contains hcontains
    refine Ensures.bind (Ensures.bind (ensures_get ?_))
    split
    · next meaning hmeaning =>
      refine ensures_pure ?_
      cases meaning with
      | value value => exact hfree
      | cell cell =>
        refine Ensures.bind (ensures_get ?_)
        rcases cell_of_meaning? hmeaning with ⟨v, hv, -⟩ | ⟨r, hr, rfl⟩
        · rw [Variables.contains_eq_isSome, hv] at hcontains
          exact absurd rfl hcontains
        · obtain ⟨value, hvalue⟩ := Option.isSome_iff_exists.mp
            (hs.log.filled r (List.mem_of_find?_eq_some hr))
          rw [hvalue]
          exact hfree
    · exact fun _ n hn => absurd hn (Cause.ne_of_not_isUnresolved id n)

theorem consults_operand (hs : s.Sound D) (token : Token) :
    Consults calls (argumentNames [token]) s (operand token) := by
  have hliteral : token.kind ≠ .identifier →
      Consults calls (argumentNames [token]) s (liftM (Value.ofLiteral token) : Exec Value) := by
    intro hkind
    rw [argumentNames_of_other hkind]
    exact consults_nil (ensures_lift (fun _ _ => trivial) fun _ he _ =>
      Value.eq_locate_of_ofLiteral he ▸ id)
  unfold operand
  split
  · next hkind => exact hliteral (by rw [hkind]; decide)
  · next hkind => exact hliteral (by rw [hkind]; decide)
  · next hkind => exact hliteral (by rw [hkind]; decide)
  · next hkind =>
    rw [argumentNames_of_identifier hkind]
    exact consults_nameValue hs token
  · exact consults_refuse id _

theorem consults_operands (hs : s.Sound D) (tokens : List Token) :
    Consults calls (argumentNames tokens) s (operands tokens) := by
  induction tokens generalizing s with
  | nil => exact consults_pure _
  | cons token tokens ih =>
    rw [argumentNames_cons]
    refine (consults_operand hs token).bind (keeps_operand hs token) fun first t ht => ?_
    have hrest := (ih ht).bind (keeps_operands ht tokens) fun rest u _ =>
      consults_pure (first :: rest)
    rwa [List.append_nil] at hrest

theorem consults_callback (hs : s.Sound D) (token : Token) :
    Consults calls (argumentNames [token]) s (callback token) := by
  have hfound : Consults calls (argumentNames [token] ++ []) s (callback token) := by
    refine (consults_operand hs token).bind (keeps_operand hs token) fun value t _ => ?_
    split
    · refine Ensures.bind (ensures_get ?_)
      split
      · exact consults_pure _
      · exact consults_refuse id _
    · exact consults_refuse id _
  rwa [List.append_nil] at hfound

/-! ## Calls -/

theorem resolves_assignVariable (s : State) (name : String) (value : Value) :
    Resolves calls s (assignVariable name value) := by
  refine Ensures.bind (ensures_get (Ensures.bind (ensures_lift (fun _ _ => trivial) ?_)))
  intro e hassign _
  unfold Variables.assign at hassign
  split at hassign
  · cases hassign
  · cases hassign
    exact id

theorem resolves_invoke (declaration : Declaration) (values : List Value) (span : Span)
    (s : State) :
    Resolves invoke.Resolves s (invoke declaration values span) := by
  by_cases hresolves : invoke.Resolves
  · exact (hresolves declaration values span s).imp (fun _ _ he _ => he) fun _ _ h => h
  · exact (ensures_run _ s).imp (fun _ _ _ h => absurd h hresolves) fun _ _ _ => trivial

/-- The next argument that a native function asks for. -/
theorem consults_argumentToken (hs : s.Sound D) {site : CallSite} {asked : Nat}
    {next : Token → Exec β}
    (hnext : ∀ token t, site.args[asked]? = some token → t.Sound D →
      Consults calls (argumentNames [token] ++ argumentNames (site.args.drop (asked + 1))) t
        (next token)) :
    Consults calls (argumentNames (site.args.drop asked)) s
      (argumentToken site asked >>= next) := by
  cases htoken : site.args[asked]? with
  | none =>
    unfold argumentToken
    rw [htoken]
    exact Ensures.bind fun _ n hn => absurd hn (Cause.ne_of_not_isUnresolved id n)
  | some token =>
    unfold argumentToken
    rw [htoken, pure_bind, argumentNames_drop htoken]
    exact hnext token s htoken hs

/-- The induction is on the requests. When all arguments have been asked for, there is nothing left
to be read, so that it does not matter what is assigned. -/
theorem consults_native (hinvoke : invoke.Sound D) (hs : s.Sound D) {site : CallSite}
    {work : Native α} {asked : Nat} (h : work.Asks site (fun _ n => n = site.args.length) asked) :
    Consults invoke.Resolves (argumentNames (site.args.drop asked)) s (native invoke site work) := by
  have hover : ∀ {n}, n = site.args.length → argumentNames (site.args.drop n) = [] := by
    rintro _ rfl
    rw [List.drop_length]
    rfl
  induction work generalizing asked s with
  | done result =>
    rw [hover h]
    exact consults_pure result
  | fail e => exact consults_throw h
  | argument index next ih =>
    obtain ⟨rfl, hnext⟩ := h
    refine consults_argumentToken hs fun token t _ ht => ?_
    exact (consults_operand ht token).bind (keeps_operand ht token)
      fun value u hu => ih value hu (hnext value)
  | callback index next ih =>
    obtain ⟨rfl, hnext⟩ := h
    refine consults_argumentToken hs fun token t _ ht => ?_
    exact (consults_callback ht token).bind (keeps_callback ht token)
      fun declaration u hu => ih _ hu (hnext _)
  | invoke function values next ih =>
    rw [native]
    refine Ensures.bind (ensures_get ?_)
    split
    · next declaration hfunction =>
      exact Consults.after (resolves_invoke declaration values site.span s) (hinvoke declaration
        values site.span s hs (mem_functions_of_function? hfunction))
        fun result t ht => ih result ht (h result)
    · exact consults_refuse id _
  | lookup name next ih =>
    obtain ⟨⟨token, htoken, hkind, rfl⟩, hnext⟩ := h
    rw [native, argumentNames_drop htoken, argumentNames_of_identifier hkind]
    refine Ensures.bind (ensures_get ?_)
    split
    · exact (consults_readVariable s token.lexeme).bind (keeps_readVariable hs token.lexeme)
        fun value t ht => ih (some value) ht (hnext (some value))
    · next hcontains =>
      refine (ih none hs (hnext none)).imp ?_ ?_
      · exact fun _ _ he hcalls n hn => (he hcalls n hn).imp (List.mem_cons_of_mem _) id
      · intro _ _ hrest n hn
        rcases List.mem_cons.mp hn with rfl | hn
        · exact not_waits_of_contains hcontains
        · exact hrest n hn
  | assign name value next ih =>
    obtain ⟨hall, hnext⟩ := h
    rw [hover hall]
    have hassign := (@resolves_assignVariable invoke.Resolves s name value).and
      (keeps_assignVariable (X := {name}) (I := False) hs name value rfl)
    refine consults_nil (Ensures.bind (hassign.imp (fun _ _ he => he.1) ?_))
    rintro _ t ⟨-, ht⟩
    have hrest := ih ht.sound hnext
    rw [hover hall] at hrest
    exact hrest.resolves
  | write line next ih =>
    exact Consults.after (ensures_modify trivial) (hs.console _) fun _ t ht => ih ht h
  | read prompt next ih =>
    refine Consults.after ?_ (keeps_readLine hs prompt) fun line t ht => ih line ht (h line)
    refine Ensures.bind (ensures_modifyGet ?_)
    split
    · exact trivial
    · exact fun _ => id
  | inspect next ih =>
    exact Consults.after (Ensures.bind (ensures_get trivial)) (keeps_overview hs)
      fun overview t ht => ih overview ht (h overview)

theorem consults_callDeclared (hs : s.Sound D) (call : Call) :
    Consults invoke.Resolves (argumentNames call.args) s (callDeclared invoke call) := by
  refine Ensures.bind (ensures_get ?_)
  split
  · exact consults_refuse id _
  · next declaration hfunction =>
    split
    · exact consults_refuse id _
    · have hcall : Consults invoke.Resolves (argumentNames call.args ++ []) s
          (operands call.args >>= fun values => invoke declaration values call.span) :=
        (consults_operands hs call.args).bind (keeps_operands hs call.args) fun values t _ =>
          consults_nil (resolves_invoke declaration values call.span t)
      rwa [List.append_nil] at hcall

/-- What is called on the arguments is a function of a module, or else nothing. -/
theorem consults_field (hinvoke : invoke.Sound D) (hs : s.Sound D) {access : Access}
    {args : List Token} (hargs : access.args = some args) :
    Consults invoke.Resolves (argumentNames args) s (field invoke access) := by
  refine Ensures.bind (ensures_get ?_)
  split
  · next module hget =>
    unfold moduleField
    rw [hargs]
    split
    · exact consults_refuse id _
    · next function args' hexport hsome =>
      cases hsome
      unfold callNative
      split
      · next haccepts =>
        have hasks : Library.AsksAll ⟨function.name, args, access.span⟩ (function.body _) :=
          Library.asksAll_body (hs.imports (ImportTable.mem_of_get? hget)) hexport haccepts
        exact (consults_native hinvoke hs hasks).decorate fun _ => rfl
      · exact consults_refuse id _
    · next hnone => cases hnone
    · exact consults_refuse id _
    · next hnone => cases hnone
  · split
    · unfold mapField
      rw [hargs]
      exact consults_refuse id _
    · exact consults_refuse id _

theorem consults_evaluate (hinvoke : invoke.Sound D) (hs : s.Sound D) {expr : Expr}
    (hcall : expr.isCall = true) :
    Consults invoke.Resolves (argumentNames expr.args) s (evaluate invoke expr) := by
  have hvalue : Consults invoke.Resolves (argumentNames expr.args) s (evaluate? invoke expr) := by
    cases expr with
    | literal | reference => cases hcall
    | call call => exact consults_callDeclared hs call
    | access access =>
      obtain ⟨args, hargs⟩ := Option.isSome_iff_exists.mp hcall
      rw [Expr.args, hargs]
      exact consults_field hinvoke hs hargs
  refine Ensures.bind (Ensures.imp hvalue (fun _ _ he => he) fun result t hread => ?_)
  cases result with
  | some value => exact hread
  | none => exact fun _ n hn => absurd hn (Cause.ne_of_not_isUnresolved id n)

/-! ## Steps from settled states -/

/-- A step that reads some variables does not fail because of them in a settled state. -/
theorem Consults.settled {step : Exec α} (h : Consults calls names s step) (hsettled : s.Settled) :
    Resolves calls s step := by
  refine Ensures.imp h (fun e _ he hcalls hunresolved => ?_) fun _ _ _ => trivial
  obtain ⟨n, hn⟩ := hunresolved.exists_eq
  exact hsettled n (he hcalls n hn).2

theorem resolves_field (hinvoke : invoke.Sound D) (hs : s.Sound D) (hsettled : s.Settled)
    (access : Access) : Resolves invoke.Resolves s (field invoke access) := by
  cases hargs : access.args with
  | some args => exact (consults_field hinvoke hs hargs).settled hsettled
  | none =>
    refine Ensures.bind (ensures_get ?_)
    split
    · unfold moduleField
      rw [hargs]
      split
      · exact fun _ => id
      · next hsome => cases hsome
      · exact trivial
      · next hsome => cases hsome
      · exact trivial
    · split
      · unfold mapField
        rw [hargs]
        refine Resolves.bind ((consults_readVariable s access.module).settled hsettled)
          fun value _ => ?_
        split
        · split
          · exact trivial
          · exact fun _ => id
        · exact fun _ => id
      · exact fun _ => id

theorem resolves_evaluate (hinvoke : invoke.Sound D) (hs : s.Sound D) (hsettled : s.Settled)
    (expr : Expr) : Resolves invoke.Resolves s (evaluate invoke expr) := by
  have hvalue : Resolves invoke.Resolves s (evaluate? invoke expr) := by
    cases expr with
    | literal token | reference token =>
      exact Ensures.map ((consults_operand hs token).settled hsettled)
    | call call => exact (consults_callDeclared hs call).settled hsettled
    | access access => exact resolves_field hinvoke hs hsettled access
  refine Resolves.bind hvalue fun result _ => ?_
  cases result with
  | some value => exact trivial
  | none => exact fun _ => id

end Exec

/-! ## Bindings -/

/-- The expression is a call with the name among its arguments. -/
def Expr.CallsOn (expr : Expr) (name : String) : Prop :=
  expr.isCall = true ∧ name ∈ argumentNames expr.args

instance (expr : Expr) (name : String) : Decidable (expr.CallsOn name) :=
  inferInstanceAs (Decidable (_ ∧ _))

namespace Exec

variable {D : Discipline} {s t : State} {invoke : Invoke} {name : String} {expr : Expr}
  {place : Variables → Variable → Variables}

/-- A step that binds the name to the expression fails because of a variable that waits only if the
expression is a call on the name itself, and the variable is of that name. It does not succeed
then. -/
abbrev BindsResolved (invoke : Invoke) (name : String) (expr : Expr) (s : State) (step : Exec Unit) :
    Prop :=
  Ensures step s
    (fun e _ => invoke.Resolves → ∀ n, e.cause = .unresolvedCall n → n = name ∧ expr.CallsOn name)
    fun _ _ => ¬ expr.CallsOn name

theorem Resolves.binds {step : Exec Unit} (h : Resolves invoke.Resolves s step)
    (hcall : ¬ expr.isCall = true) : BindsResolved invoke name expr s step := by
  refine Ensures.imp h (fun e _ he hcalls n hn => ?_) fun _ _ _ hon => hcall hon.1
  exact absurd hn (Cause.ne_of_not_isUnresolved (he hcalls) n)

/-- While a call runs for a variable, no other variable of the scope waits. -/
theorem Places.waits_await_iff (h : Places D place name s) (hs : s.Sound D) (hsettled : s.Settled)
    {n : String} : (s.await place name).Waits n ↔ n = name := by
  constructor
  · rintro ⟨cell, hview⟩
    by_contra hne
    exact hsettled n ⟨cell, ((h.advances_await hs).view n hne).symm.trans hview⟩
  · rintro rfl
    exact ⟨_, h.view_await hs⟩

theorem binds_capture (hplaces : Places D place name s) (hinvoke : invoke.Sound D)
    (hs : s.Sound D) (hsettled : s.Settled) (hcall : expr.isCall = true) (undo : State → State) :
    BindsResolved invoke name expr (s.await place name)
      (orUndo (capture invoke name s.cells.fresh expr) undo) := by
  have hconsults := consults_evaluate hinvoke (hplaces.advances_await hs).sound hcall
  refine Ensures.orUndo (Ensures.bind (Ensures.imp hconsults ?_ ?_))
  · intro e _ he hcalls n hn
    obtain ⟨hmem, hwaits⟩ := he hcalls n hn
    obtain rfl := (hplaces.waits_await_iff hs hsettled).mp hwaits
    exact ⟨rfl, hcall, hmem⟩
  · intro value _ hread
    refine Ensures.bind (ensures_modify (ensures_pushRecord fun hon => ?_))
    exact hread name hon.2 ((hplaces.waits_await_iff hs hsettled).mpr rfl)

theorem resolves_reference {calls : Prop} (s : State) (name : String) (token : Token) :
    Resolves calls s (reference name token) := by
  refine Ensures.bind (Ensures.bind (ensures_get ?_))
  split
  · next meaning _ =>
    refine ensures_pure ?_
    cases meaning with
    | value value => exact trivial
    | cell cell => exact trivial
  · exact fun _ => id

theorem resolves_declareVariable {calls : Prop} (s : State) (v : Variable) :
    Resolves calls s (declareVariable v) := by
  refine Ensures.bind (ensures_get (Ensures.bind (ensures_lift (fun _ _ => trivial) ?_)))
  intro e hdeclare _
  unfold Variables.declare at hdeclare
  split at hdeclare
  · cases hdeclare
    exact id
  · cases hdeclare

theorem binds_declare (hinvoke : invoke.Sound D) (hs : s.Sound D) (hsettled : s.Settled)
    (howns : D.Owns name) (expr : Expr) (span : Span) :
    BindsResolved invoke name expr s (declare invoke name expr span) := by
  refine Ensures.bind (ensures_get ?_)
  split
  · exact fun _ n hn => absurd hn (Cause.ne_of_not_isUnresolved id n)
  · next hcontains =>
    have hnew : s.vars.contains name = false := by simpa using hcontains
    split
    · next hcall =>
      refine Ensures.bind (ensures_makeCell ?_)
      refine Ensures.bind (ensures_of_run (run_declareVariable hnew) ?_)
      exact binds_capture (places_prepend howns) hinvoke hs hsettled hcall _
    · next hcall =>
      refine Resolves.binds ?_ hcall
      split
      · exact Resolves.bind (resolves_reference s name _) fun v t => resolves_declareVariable t v
      · exact Resolves.bind (resolves_evaluate hinvoke hs hsettled _) fun value t =>
          resolves_declareVariable t _

theorem binds_rebind (hinvoke : invoke.Sound D) (hs : s.Sound D) (hsettled : s.Settled)
    {previous : Variable} (hprevious : s.vars.get? name = some previous) (expr : Expr) :
    BindsResolved invoke name expr s (rebind invoke name previous expr) := by
  have hthere : s.view name ≠ none := view_eq_some hprevious ▸ Option.some_ne_none _
  unfold rebind
  split
  · next hcall =>
    refine Ensures.bind (ensures_makeCell (Ensures.bind (ensures_replaceVariable ?_)))
    exact binds_capture (places_replace hthere) hinvoke hs hsettled hcall _
  · next hcall =>
    refine Resolves.binds ?_ hcall
    split
    · refine Ensures.bind (ensures_lift (fun value _ => ?_) fun e he _ => ?_)
      · refine Resolves.bind ((consults_readVariable s name).settled hsettled)
          fun current t => ?_
        split
        · exact fun _ => id
        · exact resolves_assignVariable t name value
      · exact Value.eq_locate_of_ofLiteral he ▸ id
    · exact Resolves.bind (resolves_reference s name _) fun v t => ensures_replaceVariable trivial
    · exact Resolves.bind (resolves_evaluate hinvoke hs hsettled _) fun value t =>
        resolves_assignVariable t name value

/-- The records are moved after the variable has got its value. -/
theorem binds_assign (hinvoke : invoke.Sound D) (hs : s.Sound D) (hsettled : s.Settled)
    (howns : D.Owns name) (expr : Expr) (span : Span) :
    BindsResolved invoke name expr s (assign invoke name expr span) := by
  refine Ensures.bind (ensures_get ?_)
  cases hprevious : s.vars.get? name with
  | none => exact fun _ n hn => absurd hn (Cause.ne_of_not_isUnresolved id n)
  | some previous =>
    have hthere : s.view name ≠ none := view_eq_some hprevious ▸ Option.some_ne_none _
    have hrebind := (binds_rebind hinvoke hs hsettled hprevious expr).and
      ((rebind_cases hinvoke hs name expr previous).and
        (ensures_rebind hinvoke hs howns hprevious expr))
    refine Ensures.bind (hrebind.imp (fun _ _ he => he.1) ?_)
    rintro _ t ⟨hbinds, hbound, ht, -⟩
    have hpublishes := hbound.publishes (places_replace hthere) hinvoke hs hsettled
    split
    · exact (publishes_moveRecords ht.sound hpublishes _ span).imp (fun _ _ h => h.elim)
        fun _ _ _ => hbinds
    · exact hbinds

theorem resolves_assignField (hinvoke : invoke.Sound D) (hs : s.Sound D) (hsettled : s.Settled)
    (map field : String) (expr : Expr) (span : Span) :
    Resolves invoke.Resolves s (assignField invoke map field expr span) := by
  refine Ensures.bind ((((consults_readVariable s map).settled hsettled).and
    (keeps_readVariable (X := ∅) (I := False) hs map)).imp (fun _ _ he => he.1) ?_)
  rintro current t ⟨-, ht⟩
  have htsettled : t.Settled := hsettled.of_advances ht fun x hx => absurd hx (Set.notMem_empty x)
  split
  · refine Resolves.bind (resolves_evaluate hinvoke ht.sound htsettled expr) fun value u => ?_
    split
    · split
      · exact fun _ => id
      · exact resolves_assignVariable u map _
    · exact resolves_assignVariable u map _
  · exact fun _ => id

end Exec

/-! ## Statements -/

/-- A statement of the form binds the variable to the result of a call on the variable itself. -/
def Form.CapturesItself (name : String) : Form → Prop
  | .declare bound value | .assign (.var bound) value => bound = name ∧ value.CallsOn name
  | _ => False

theorem Form.capturesItself_iff {form : Form} {name : String} :
    form.CapturesItself name ↔ ∃ value,
      (form = .declare name value ∨ form = .assign (.var name) value) ∧ value.CallsOn name := by
  constructor
  · intro h
    unfold CapturesItself at h
    split at h
    · obtain ⟨rfl, hon⟩ := h
      exact ⟨_, .inl rfl, hon⟩
    · obtain ⟨rfl, hon⟩ := h
      exact ⟨_, .inr rfl, hon⟩
    · exact h.elim
  · rintro ⟨value, rfl | rfl, hon⟩
    · exact ⟨rfl, hon⟩
    · exact ⟨rfl, hon⟩

namespace Exec

variable {s : State} {invoke : Invoke} {st : Statement}

/-- A statement of the form fails because of a variable that waits only if it captures itself, and it
does not succeed then. -/
abbrev RunsResolved (invoke : Invoke) (form : Form) (s : State) (step : Exec Flow) : Prop :=
  Ensures step s
    (fun e _ => invoke.Resolves → ∀ n, e.cause = .unresolvedCall n → form.CapturesItself n)
    fun _ _ => ∀ n, ¬ form.CapturesItself n

theorem Resolves.runs {step : Exec Flow} {form : Form} (h : Resolves invoke.Resolves s step)
    (hform : ∀ n, ¬ form.CapturesItself n) : RunsResolved invoke form s step := by
  refine Ensures.imp h (fun e _ he hcalls n hn => ?_) fun _ _ _ => hform
  exact absurd hn (Cause.ne_of_not_isUnresolved (he hcalls) n)

theorem BindsResolved.runs {step : Exec Unit} {form : Form} {name : String} {expr : Expr}
    (h : BindsResolved invoke name expr s step)
    (hform : ∀ n, form.CapturesItself n ↔ name = n ∧ expr.CallsOn n) :
    RunsResolved invoke form s (do let _ ← step; return .goOn) := by
  refine Ensures.goOn (Ensures.imp h ?_ ?_)
  · intro e _ he hcalls n hn
    obtain ⟨rfl, hon⟩ := he hcalls n hn
    exact (hform n).mpr ⟨rfl, hon⟩
  · intro _ _ hnot n hcaptures
    obtain ⟨rfl, hon⟩ := (hform n).mp hcaptures
    exact hnot hon

theorem runsResolved_statement (hinvoke : invoke.Sound .ofLoaded) (hs : s.Sound .ofLoaded)
    (hsettled : s.Settled) (hfile : ∀ file program, st.form ≠ .useFile file program) :
    RunsResolved invoke st.form s (statement invoke st) := by
  rw [statement_eq]
  refine Ensures.decorate ?_
  show RunsResolved invoke st.form s (formOf invoke st.span st.scope st.form)
  cases hform : st.form with
  | function declaration =>
    rw [formOf]
    refine Resolves.runs (Ensures.goOn (Ensures.bind (ensures_get ?_))) fun _ => id
    split
    · exact fun _ => id
    · exact trivial
  | call call =>
    rw [formOf]
    exact Resolves.runs (Ensures.goOn ((consults_callDeclared hs call).settled hsettled))
      fun _ => id
  | access access =>
    rw [formOf]
    refine Resolves.runs (Ensures.goOn ?_) fun _ => id
    refine Resolves.bind (resolves_field hinvoke hs hsettled access) fun result _ => ?_
    split
    · exact trivial
    · exact trivial
  | declare name value =>
    rw [formOf]
    exact BindsResolved.runs (binds_declare hinvoke hs hsettled trivial value st.span) fun _ =>
      Iff.rfl
  | assign target value =>
    cases target with
    | var name =>
      rw [formOf]
      exact BindsResolved.runs (binds_assign hinvoke hs hsettled trivial value st.span) fun _ =>
        Iff.rfl
    | field map field =>
      rw [formOf]
      exact Resolves.runs (Ensures.goOn (resolves_assignField hinvoke hs hsettled map field value
        st.span)) fun _ => id
  | returns value =>
    rw [formOf]
    refine Resolves.runs ?_ fun _ => id
    exact Resolves.bind (resolves_evaluate hinvoke hs hsettled value) fun _ _ => trivial
  | useModule module =>
    rw [formOf]
    exact Resolves.runs (Ensures.goOn (ensures_modify trivial)) fun _ => id
  | useFile file program => exact absurd hform (hfile file program)

end Exec

/-! ## Origins -/

/-- The error, with another cause if it is about a variable that waits. -/
def Error.conceal (e : Error) : Error :=
  match e.cause with
  | .unresolvedCall _ => { e with cause := .stackOverflow }
  | _ => e

theorem Error.conceal_of_not_isUnresolved {e : Error} (h : ¬ e.cause.IsUnresolved) :
    e.conceal = e := by
  unfold conceal
  split
  · next name hcause => exact absurd hcause (Cause.ne_of_not_isUnresolved h name)
  · rfl

theorem Error.not_isUnresolved_conceal (e : Error) : ¬ e.conceal.cause.IsUnresolved := by
  unfold conceal
  split
  · exact id
  · next hother =>
    intro h
    obtain ⟨name, hcause⟩ := h.exists_eq
    exact hother name hcause

/-- The same way to run functions, except that no call fails because of a variable that waits. -/
def Invoke.concealing (invoke : Invoke) : Invoke := fun declaration values span =>
  Exec.decorate Error.conceal (invoke declaration values span)

theorem Invoke.resolves_concealing (invoke : Invoke) : invoke.concealing.Resolves := by
  intro declaration values span s
  refine Exec.Ensures.decorate ((Exec.ensures_run _ s).imp ?_ fun _ _ _ => trivial)
  exact fun e _ _ => e.not_isUnresolved_conceal

theorem Invoke.Sound.concealing {D : Discipline} {invoke : Invoke} (h : invoke.Sound D) :
    invoke.concealing.Sound D :=
  fun declaration values span s hs hmem => (h declaration values span s hs hmem).decorate

namespace Moment

variable {m : Moment}

/-- The calls of an origin do not fail because of a variable that waits: what runs in them does not
fail at all. -/
theorem IsOrigin.agreeOn (h : m.IsOrigin) :
    Exec.AgreeOn (callWithin m.levels) (callWithin m.levels).concealing
      (m.statement.form.invocations (callWithin m.levels) m.state) := by
  intro i hi
  have hrefused := h.ensures_isRefusal hi
  cases hrun : i.run (callWithin m.levels) with
  | mk result t =>
    show i.state.run (Exec.decorate Error.conceal _) = _
    rw [Exec.run_decorate]
    unfold Invocation.run at hrun
    rw [hrun]
    cases result with
    | ok value => rfl
    | error e =>
      have hcause : ¬ e.cause.IsUnresolved :=
        (hrefused.of_error hrun).elim id (fun _ _ _ => id) fun _ _ _ _ => id
      simp only [Error.conceal_of_not_isUnresolved hcause]

/-- An origin that fails because of a variable that waits binds the variable to a call on itself. -/
theorem IsOrigin.capturesItself (h : m.IsOrigin) (hready : m.Ready) {e : Error} {n : String}
    (hfails : m.outcome = (.error e, m.after)) (hcause : e.cause = .unresolvedCall n) :
    m.statement.form.CapturesItself n := by
  by_cases hfile : ∃ file program, m.statement.form = .useFile file program
  · obtain ⟨file, program, hform⟩ := hfile
    have hsucceeds : Exec.Ensures (Exec.statement (callWithin m.levels) m.statement) m.state
        (fun _ _ => False) fun _ _ => True := by
      rw [Exec.statement_eq, hform, Exec.formOf, Exec.programOf_eq]
      refine Exec.Ensures.decorate (Exec.Ensures.bind (Exec.ensures_modify (Exec.Ensures.goOn ?_)))
      exact Exec.Ensures.decorate (Exec.ensures_of_succeeds fun inner hinner =>
        h.2 inner (.inl ⟨file, program, hform, hinner⟩))
    exact (hsucceeds.of_error hfails).elim
  · have hfile : ∀ file program, m.statement.form ≠ .useFile file program :=
      fun file program hform => hfile ⟨file, program, hform⟩
    have hinvoke := (sound_callWithin_ofLoaded m.levels).concealing
    have hruns := Exec.runsResolved_statement hinvoke hready.sound hready.settled hfile
    have hsame := Exec.run_statement_congr hready.forms h.agreeOn
    exact hruns.of_error (hsame.trans hfails) (Invoke.resolves_concealing _) n hcause

end Moment

/-- Only a statement that binds a variable to a call on the variable itself sees a pending result.

* Before and after each statement of a run, no variable of its scope waits for a result.
* A run that fails because of a variable that waits does so at a statement that declares or assigns
  this variable, with a call that has the variable among its arguments. There is such a statement:
  one that fails, though nothing that runs inside it does.
* No statement like that ever succeeds. -/
theorem pending_only_in_self_capture {s : State} {program : Program} (hsession : Session s)
    (hprogram : program.Loaded) :
    (∀ m : Moment, m.During callLimit [] program.statements (s.prepare program) →
      m.state.Settled ∧ m.after.Settled) ∧
    (∀ (e : Error) (n : String), (s.execute program).1 = .error e → e.cause = .unresolvedCall n →
      (∃ m : Moment, m.During callLimit [] program.statements (s.prepare program) ∧ m.IsOrigin) ∧
      ∀ m : Moment, m.During callLimit [] program.statements (s.prepare program) → m.IsOrigin →
        ∃ value, (m.statement.form = .declare n value ∨
          m.statement.form = .assign (.var n) value) ∧ value.CallsOn n) ∧
    ∀ (m : Moment) (n : String) (value : Expr),
      m.During callLimit [] program.statements (s.prepare program) →
      (m.statement.form = .declare n value ∨ m.statement.form = .assign (.var n) value) →
      value.CallsOn n → ¬ m.Succeeds := by
  have hready : ∀ m : Moment, m.During callLimit [] program.statements (s.prepare program) →
      m.Ready := fun m hm => hm.ready (hsession.readyFor hprogram)
  refine ⟨fun m hm => ⟨(hready m hm).settled, (hready m hm).settles.state⟩, ?_, ?_⟩
  · intro e n hexecute hcause
    obtain ⟨t, hrun⟩ := State.execute_error_iff.mp hexecute
    constructor
    · obtain ⟨m, hm, hfails⟩ := Exec.exists_of_run_statementsOf_error [] hrun
      exact hm.exists_isOrigin (Moment.not_succeeds_of_outcome hfails)
    · intro m hm horigin
      obtain ⟨raised, hfails⟩ := Moment.exists_error_of_not_succeeds horigin.1
      obtain ⟨e', hexecute', hsame, -⟩ := hm.exists_execute_error hsession hprogram hfails
      cases hexecute.symm.trans hexecute'
      exact Form.capturesItself_iff.mp
        (horigin.capturesItself (hready m hm) hfails (hsame.symm.trans hcause))
  · intro m n value hm hform hon hsucceeds
    have hfile : ∀ file program, m.statement.form ≠ .useFile file program := by
      intro file program huse
      rcases hform with hform | hform
      · cases hform.symm.trans huse
      · cases hform.symm.trans huse
    have hruns := Exec.runsResolved_statement (sound_callWithin_ofLoaded m.levels)
      (hready m hm).sound (hready m hm).settled hfile
    obtain ⟨flow, hrun⟩ := hsucceeds.exists_outcome
    exact hruns.of_ok hrun n (Form.capturesItself_iff.mpr ⟨value, hform, hon⟩)

/-- A function that binds a variable of its own to a call on the variable. -/
def selfCaptureText : String :=
  "function id(x) \x7b return x \x7d " ++
  "function f() \x7b var n = id(n) \x7d " ++
  "f()"

/-- The run fails because of the variable, at a statement that binds it, and that statement does not
succeed. -/
theorem pending_only_in_self_capture_local :
    ∃ (program : Program) (e : Error) (m : Moment) (value : Expr),
      Program.ofText? selfCaptureText = some program ∧
      (({} : State).execute program).1 = .error e ∧ e.cause = .unresolvedCall "n" ∧
      m.During callLimit [] program.statements (State.prepare {} program) ∧ m.IsOrigin ∧
      (m.statement.form = .declare "n" value ∨ m.statement.form = .assign (.var "n") value) ∧
      value.CallsOn "n" ∧ m.state.Settled ∧ m.after.Settled ∧ ¬ m.Succeeds := by
  have hruns : (Program.ofText? selfCaptureText).any (fun program =>
      decide ((({} : State).execute program).1.mapError Error.cause =
        .error (.unresolvedCall "n"))) = true := by
    decide +kernel
  obtain ⟨program, hprogram, hcause⟩ := (Option.any_eq_true _ _).mp hruns
  obtain ⟨e, hfails, hcause⟩ := exists_of_mapError_eq_error (of_decide_eq_true hcause)
  obtain ⟨hsettled, horigins, hnever⟩ :=
    pending_only_in_self_capture (.start {}) (Program.loaded_of_ofText? hprogram)
  obtain ⟨⟨m, hm, horigin⟩, hall⟩ := horigins e "n" hfails hcause
  obtain ⟨value, hform, hon⟩ := hall m hm horigin
  obtain ⟨hbefore, hafter⟩ := hsettled m hm
  exact ⟨program, e, m, value, hprogram, hfails, hcause, hm, horigin, hform, hon, hbefore, hafter,
    hnever m "n" value hm hform hon⟩

end Scripting
