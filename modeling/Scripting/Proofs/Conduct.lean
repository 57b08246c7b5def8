import Scripting.Proofs.Invocations
import Scripting.Proofs.Raising

/-!
# The conduct of evaluation

An evaluation does little by itself. It reads variables of its scope and assigns to them, it writes
to the console and reads from it, and it refuses to go on at one of the places that are written in
the expression. Everything else is done by the functions that it calls.

A `Conduct` is a relation between earlier and later states together with a property of errors. If it
allows for the things above (`Conduct.Allows`, `Conduct.AllowsWriting`) and all calls of an
evaluation follow it, then so does the evaluation, as a whole and from the end of each call on
(`traces_evaluate`). No more needs to be known of evaluation in order to see what it leaves alone,
or where its errors come from.
-/

namespace Scripting

open State

/-- What steps are held to: how they may change the state, and with which errors they may fail. -/
structure Conduct where
  Moves : State → State → Prop
  Raises : Error → Prop

/-- The conduct allows for reading variables, and for errors at the given places. -/
structure Conduct.Allows (C : Conduct) (spans : List Span) : Prop where
  refl : ∀ s, C.Moves s s
  trans : ∀ s t u, C.Moves s t → C.Moves t u → C.Moves s u
  settle : ∀ s name v value, s.vars.get? name = some v → v.peek s.cells = some value →
    C.Moves s { s with vars := s.vars.replace (v.settle value) }
  raw : ∀ e, e.Raw spans → C.Raises e
  orAt : ∀ e, ∀ span ∈ spans, C.Raises e → C.Raises (e.orAt span)

/-- The conduct allows for assigning to variables and for using the console. -/
structure Conduct.AllowsWriting (C : Conduct) : Prop where
  console : ∀ s console, C.Moves s { s with console }
  assign : ∀ s name value, C.Moves s { s with vars := s.vars.replace (.plain name value) }

/-- A conduct for states only. -/
def Conduct.ofMoves (R : State → State → Prop) : Conduct := { Moves := R, Raises := fun _ => True }

namespace Exec

variable {α β : Type} {C : Conduct} {spans : List Span} {s t : State} {invoke : Invoke}

variable (C s) in
/-- The step follows the conduct from the state. -/
def Follows (step : Exec α) : Prop :=
  Ensures step s (fun e t => C.Moves s t ∧ C.Raises e) fun _ t => C.Moves s t

/-- All these calls follow the conduct. -/
def CallsFollow (C : Conduct) (invoke : Invoke) (calls : List Invocation) : Prop :=
  ∀ i ∈ calls, Follows C i.state (invoke i.function i.values i.span)

theorem CallsFollow.after {step : Exec α} {next : α → State → List Invocation} {a : α}
    (h : CallsFollow C invoke (s.after step next)) (hrun : s.run step = (.ok a, t)) :
    CallsFollow C invoke (next a t) :=
  fun i hi => h i (mem_after.mpr ⟨a, t, hrun, hi⟩)

/-- If the call fails at a known place, then with this error. -/
def Explains (invoke : Invoke) (e : Error) (i : Invocation) : Prop :=
  ∀ e', (i.run invoke).1 = .error e' → e'.span ≠ none → e = e'

theorem explains_of_isOk {i : Invocation} (h : (i.run invoke).1.isOk = true) (e : Error) :
    Explains invoke e i := by
  intro e' he'
  rw [he'] at h
  cases h

/-- The step follows the conduct, and so does what comes after each of the calls that it makes. It
fails if one of the calls does, and with the same error. -/
def Traces (C : Conduct) (invoke : Invoke) (s : State) (calls : List Invocation) (step : Exec α) :
    Prop :=
  Ensures step s
    (fun e t => (C.Moves s t ∧ C.Raises e) ∧
      ∀ i ∈ calls, C.Moves (i.run invoke).2 t ∧ Explains invoke e i)
    fun _ t => C.Moves s t ∧
      ∀ i ∈ calls, C.Moves (i.run invoke).2 t ∧ (i.run invoke).1.isOk = true

/-! ## Putting steps together -/

theorem follows_get_bind {next : State → Exec β} (h : Follows C s (next s)) :
    Follows C s (get >>= next) :=
  Ensures.bind (ensures_get h)

theorem Follows.map {step : Exec α} {f : α → β} (h : Follows C s step) : Follows C s (f <$> step) :=
  Ensures.map h

theorem Traces.follows {calls : List Invocation} {step : Exec α}
    (h : Traces C invoke s calls step) : Follows C s step :=
  Ensures.imp h (fun _ _ ht => ht.1) fun _ _ ht => ht.1

theorem Follows.traces {step : Exec α} (h : Follows C s step) : Traces C invoke s [] step :=
  Ensures.imp h (fun _ _ ht => ⟨ht, fun _ hi => absurd hi List.not_mem_nil⟩)
    fun _ _ ht => ⟨ht, fun _ hi => absurd hi List.not_mem_nil⟩

theorem traces_get_bind {calls : List Invocation} {next : State → Exec β}
    (h : Traces C invoke s calls (next s)) : Traces C invoke s calls (get >>= next) :=
  Ensures.bind (ensures_get h)

section Steps

variable (hC : C.Allows spans)
include hC

theorem follows_pure (a : α) : Follows C s (pure a) := hC.refl s

theorem follows_throw {error : Error} (h : error.Raw spans) : Follows C s (throw error : Exec α) :=
  ⟨hC.refl s, hC.raw error h⟩

theorem follows_refuse (cause : Cause) {span : Span} (h : span ∈ spans) :
    Follows C s (refuse cause span : Exec α) :=
  follows_throw hC (Error.raw_locate cause h)

theorem follows_lift {x : Except Error α} (h : ∀ e, x = .error e → e.Raw spans) :
    Follows C s (liftM x : Exec α) :=
  ensures_lift (fun _ _ => hC.refl s) fun e he => ⟨hC.refl s, hC.raw e (h e he)⟩

theorem Follows.bind {step : Exec α} {next : α → Exec β} (h : Follows C s step)
    (hnext : ∀ a t, s.run step = (.ok a, t) → Follows C t (next a)) :
    Follows C s (step >>= next) := by
  refine Ensures.bind ((Ensures.withRun h).imp (fun _ _ ht => ht.1) ?_)
  rintro a t ⟨hst, hrun⟩
  exact (hnext a t hrun).imp (fun _ u hu => ⟨hC.trans s t u hst hu.1, hu.2⟩)
    fun _ u hu => hC.trans s t u hst hu

theorem Traces.bind {calls : List Invocation} {n : α → State → List Invocation} {step : Exec α}
    {next : α → Exec β} (h : Traces C invoke s calls step)
    (hnext : ∀ a t, s.run step = (.ok a, t) → Traces C invoke t (n a t) (next a)) :
    Traces C invoke s (calls ++ s.after step n) (step >>= next) := by
  refine Ensures.bind ((Ensures.withRun h).imp ?_ ?_)
  · rintro e t ⟨⟨ht, hcalls⟩, hrun⟩
    refine ⟨ht, fun i hi => ?_⟩
    rcases List.mem_append.mp hi with hi | hi
    · exact hcalls i hi
    · obtain ⟨a, u, hok, -⟩ := mem_after.mp hi
      cases hrun.symm.trans hok
  · rintro a t ⟨⟨hst, hcalls⟩, hrun⟩
    have hends : ∀ {u : State} {P : Invocation → Prop}, C.Moves t u →
        (∀ i, (i.run invoke).1.isOk = true → P i) →
        (∀ i ∈ n a t, C.Moves (i.run invoke).2 u ∧ P i) →
        ∀ i ∈ calls ++ s.after step n, C.Moves (i.run invoke).2 u ∧ P i := by
      intro u P htu hP hn i hi
      rcases List.mem_append.mp hi with hi | hi
      · exact ⟨hC.trans _ t u (hcalls i hi).1 htu, hP i (hcalls i hi).2⟩
      · obtain ⟨a', t', hok, hi⟩ := mem_after.mp hi
        cases hrun.symm.trans hok
        exact hn i hi
    refine (hnext a t hrun).imp ?_ ?_
    · rintro e u ⟨⟨htu, he⟩, hn⟩
      exact ⟨⟨hC.trans s t u hst htu, he⟩, hends htu (fun i hi => explains_of_isOk hi e) hn⟩
    · rintro b u ⟨htu, hn⟩
      exact ⟨hC.trans s t u hst htu, hends htu (fun _ hi => hi) hn⟩

/-- The calls come after the first step. -/
theorem Follows.bindTraces {n : α → State → List Invocation} {step : Exec α} {next : α → Exec β}
    (h : Follows C s step)
    (hnext : ∀ a t, s.run step = (.ok a, t) → Traces C invoke t (n a t) (next a)) :
    Traces C invoke s (s.after step n) (step >>= next) :=
  Traces.bind hC h.traces hnext

/-- The calls are those of the first step. -/
theorem Traces.bindFollows {calls : List Invocation} {step : Exec α} {next : α → Exec β}
    (h : Traces C invoke s calls step)
    (hnext : ∀ a t, s.run step = (.ok a, t) → Follows C t (next a)) :
    Traces C invoke s calls (step >>= next) := by
  have hall := Traces.bind hC (n := fun _ _ => []) h fun a t hrun => (hnext a t hrun).traces
  exact hall.imp (fun _ _ ht => ⟨ht.1, fun i hi => ht.2 i (List.mem_append_left _ hi)⟩)
    fun _ _ ht => ⟨ht.1, fun i hi => ht.2 i (List.mem_append_left _ hi)⟩

/-- A call on its own. -/
theorem traces_invoke {i : Invocation}
    (h : Follows C i.state (invoke i.function i.values i.span)) :
    Traces C invoke i.state [i] (invoke i.function i.values i.span) := by
  refine (Ensures.withRun h).imp ?_ ?_
  · rintro e t ⟨ht, hrun⟩
    refine ⟨ht, List.forall_mem_singleton.mpr ?_⟩
    rw [Explains, Invocation.run, hrun]
    exact ⟨hC.refl t, fun e' he' _ => Except.error.inj he'⟩
  · rintro a t ⟨hst, hrun⟩
    refine ⟨hst, List.forall_mem_singleton.mpr ?_⟩
    rw [Invocation.run, hrun]
    exact ⟨hC.refl t, rfl⟩

theorem Traces.orAt {calls : List Invocation} {step : Exec α} {span : Span}
    (h : Traces C invoke s calls step) (hspan : span ∈ spans) :
    Traces C invoke s calls (decorate (·.orAt span) step) := by
  refine Ensures.decorate (Ensures.imp h ?_ fun _ _ ht => ht)
  rintro e t ⟨⟨hst, he⟩, hcalls⟩
  refine ⟨⟨hst, hC.orAt e span hspan he⟩, fun i hi => ⟨(hcalls i hi).1, fun e' he' hspan' => ?_⟩⟩
  obtain rfl := (hcalls i hi).2 e' he' hspan'
  exact Error.orAt_of_span hspan' span

theorem Follows.orAt {step : Exec α} {span : Span} (h : Follows C s step) (hspan : span ∈ spans) :
    Follows C s (decorate (·.orAt span) step) :=
  Ensures.decorate
    (Ensures.imp h (fun e _ ht => ⟨ht.1, hC.orAt e span hspan ht.2⟩) fun _ _ ht => ht)

/-! ## Reading -/

theorem follows_readVariable (name : String) : Follows C s (readVariable name) := by
  refine follows_get_bind (Ensures.bind (ensures_lift ?_ ?_))
  · rintro ⟨value, vars⟩ hread
    unfold Variables.read at hread
    split at hread
    · cases hread
    · next v hget =>
      split at hread
      · cases hread
      · next value' hpeek =>
        cases hread
        exact hC.settle s name v value hget hpeek
  · intro e hread
    refine ⟨hC.refl s, hC.raw e ?_⟩
    unfold Variables.read at hread
    split at hread
    · cases hread
      exact Error.raw_nowhere _
    · split at hread
      · cases hread
        exact Error.raw_nowhere _
      · cases hread

theorem follows_meaning {token : Token} (htoken : token.span ∈ spans) :
    Follows C s (meaning token) := by
  refine follows_get_bind ?_
  split
  · exact follows_pure hC _
  · exact follows_refuse hC _ htoken

theorem follows_nameValue {token : Token} (htoken : token.span ∈ spans) :
    Follows C s (nameValue token) := by
  refine follows_get_bind ?_
  split
  · exact (follows_readVariable hC _).orAt hC htoken
  · refine (follows_meaning hC htoken).bind hC fun meaning t _ => ?_
    split
    · exact follows_pure hC _
    · refine follows_get_bind ?_
      split
      · exact follows_pure hC _
      · exact follows_refuse hC _ htoken

theorem follows_ofLiteral {token : Token} (htoken : token.span ∈ spans) :
    Follows C s (liftM (Value.ofLiteral token) : Exec Value) :=
  follows_lift hC fun _ he => Value.eq_locate_of_ofLiteral he ▸ Error.raw_locate _ htoken

theorem follows_operand {token : Token} (htoken : token.span ∈ spans) :
    Follows C s (operand token) := by
  have hliteral : Follows C s (liftM (Value.ofLiteral token) : Exec Value) :=
    follows_ofLiteral hC htoken
  unfold operand
  split
  · exact hliteral
  · exact hliteral
  · exact hliteral
  · exact follows_nameValue hC htoken
  · exact follows_refuse hC _ htoken

theorem follows_operands {tokens : List Token} (htokens : tokens.map Token.span ⊆ spans) :
    Follows C s (operands tokens) := by
  induction tokens generalizing s with
  | nil => exact follows_pure hC []
  | cons token tokens ih =>
    obtain ⟨hfirst, hrest⟩ := List.cons_subset.mp htokens
    exact (follows_operand hC hfirst).bind hC fun first t _ =>
      (ih hrest).bind hC fun rest u _ => follows_pure hC _

theorem follows_callback {token : Token} (htoken : token.span ∈ spans) :
    Follows C s (callback token) := by
  refine (follows_operand hC htoken).bind hC fun value t _ => ?_
  split
  · refine follows_get_bind ?_
    split
    · exact follows_pure hC _
    · exact follows_refuse hC _ htoken
  · exact follows_refuse hC _ htoken

/-! ## Library functions -/

theorem follows_argumentToken {site : CallSite} (hsite : site.spans ⊆ spans) (index : Nat) :
    Follows C s (argumentToken site index) := by
  unfold argumentToken
  split
  · exact follows_pure hC _
  · exact follows_throw hC (Error.raw_locate _ (hsite site.span_mem_spans))

omit hC in
theorem span_mem_of_argumentToken {site : CallSite} (hsite : site.spans ⊆ spans) {index : Nat}
    {token : Token} (hrun : s.run (argumentToken site index) = (.ok token, t)) :
    token.span ∈ spans := by
  unfold argumentToken at hrun
  split at hrun
  · next token' htoken =>
    cases hrun
    exact hsite (List.mem_cons_of_mem _ (List.mem_map_of_mem (List.mem_of_getElem? htoken)))
  · cases hrun

theorem follows_readLine (hW : C.AllowsWriting) (prompt : String) :
    Follows C s (readLine prompt) := by
  have hread : C.Moves s { s with console := (s.console.read prompt).2 } := hW.console s _
  refine Ensures.bind (ensures_modifyGet ?_)
  split
  · exact hread
  · exact ⟨hread, hC.raw _ (Error.raw_nowhere _)⟩

theorem follows_overview : Follows C s overview := follows_get_bind (follows_pure hC _)

theorem follows_assignVariable (hW : C.AllowsWriting) (name : String) (value : Value) :
    Follows C s (assignVariable name value) := by
  refine follows_get_bind (Ensures.bind (ensures_lift ?_ ?_))
  · intro vars hassign
    unfold Variables.assign at hassign
    split at hassign
    · cases hassign
      exact hW.assign s name value
    · cases hassign
  · intro e hassign
    refine ⟨hC.refl s, hC.raw e ?_⟩
    unfold Variables.assign at hassign
    split at hassign
    · cases hassign
    · cases hassign
      exact Error.raw_nowhere _

/-- The induction is on the tree of requests; a call that is requested is one of those listed. -/
theorem traces_native (hW : C.AllowsWriting) {site : CallSite} (hsite : site.spans ⊆ spans)
    {work : Native α} (hwork : work.Blames spans)
    (hcalls : CallsFollow C invoke (work.invocations invoke site s)) :
    Traces C invoke s (work.invocations invoke site s) (native invoke site work) := by
  induction work generalizing s with
  | done result => exact (follows_pure hC result).traces
  | fail error => exact (follows_throw hC hwork).traces
  | argument index next ih =>
    refine (follows_argumentToken hC hsite index).bindTraces hC fun token t ht => ?_
    refine (follows_operand hC (span_mem_of_argumentToken hsite ht)).bindTraces hC
      fun value u hu => ?_
    exact ih value (hwork value) ((hcalls.after ht).after hu)
  | callback index next ih =>
    refine (follows_argumentToken hC hsite index).bindTraces hC fun token t ht => ?_
    refine (follows_callback hC (span_mem_of_argumentToken hsite ht)).bindTraces hC
      fun declaration u hu => ?_
    exact ih _ (hwork _) ((hcalls.after ht).after hu)
  | invoke function values next ih =>
    rw [Native.invocations] at hcalls ⊢
    rw [native]
    refine traces_get_bind ?_
    cases hfunction : s.function? function.name with
    | some declaration =>
      rw [hfunction] at hcalls
      have hrest : CallsFollow C invoke
          (s.after (invoke declaration values site.span) fun result t =>
            (next result).invocations invoke site t) :=
        fun i hi => hcalls i (List.mem_cons_of_mem _ hi)
      have hcall := traces_invoke hC (hcalls _ List.mem_cons_self)
      exact hcall.bind hC fun result t ht => ih result (hwork result) (hrest.after ht)
    | none => exact (follows_refuse hC _ (hsite site.span_mem_spans)).traces
  | lookup name next ih =>
    rw [Native.invocations] at hcalls ⊢
    rw [native]
    refine traces_get_bind ?_
    split
    · next hcontains =>
      rw [if_pos hcontains] at hcalls
      exact (follows_readVariable hC name).bindTraces hC fun value t ht =>
        ih _ (hwork _) (hcalls.after ht)
    · next hcontains =>
      rw [if_neg hcontains] at hcalls
      exact ih none (hwork none) hcalls
  | assign name value next ih =>
    exact (follows_assignVariable hC hW name value).bindTraces hC fun _ t ht =>
      ih hwork (hcalls.after ht)
  | write line next ih =>
    have hwrite : Follows C s
        (modify fun state : State => { state with console := state.console.write line }) :=
      ensures_modify (hW.console s _)
    refine hwrite.bindTraces hC (n := fun _ t => next.invocations invoke site t) fun _ t ht => ?_
    cases ht
    exact ih hwork hcalls
  | read prompt next ih =>
    exact (follows_readLine hC hW prompt).bindTraces hC fun line t ht =>
      ih line (hwork line) (hcalls.after ht)
  | inspect next ih =>
    exact (follows_overview hC).bindTraces hC fun overview t ht =>
      ih overview (hwork overview) (hcalls.after ht)

/-! ## Fields, calls and expressions -/

theorem traces_moduleField (hW : C.AllowsWriting) {module : Module}
    (hmodule : module ∈ Library.modules) {access : Access} (haccess : access.spans ⊆ spans)
    (hcalls : CallsFollow C invoke (module.invocations invoke access s)) :
    Traces C invoke s (module.invocations invoke access s) (moduleField invoke module access) := by
  have hspan : access.span ∈ spans := haccess List.mem_cons_self
  unfold Module.invocations at *
  unfold moduleField
  rcases hexport : module.export? access.field with _ | function | value
  · exact (follows_refuse hC _ hspan).traces
  · cases hargs : access.args with
    | none => exact (follows_pure hC _).traces
    | some args =>
      rw [hexport, hargs] at hcalls
      have hsite : ({ function := function.name, args, span := access.span } : CallSite).spans ⊆
          spans := by
        rw [Access.spans, hargs] at haccess
        exact haccess
      unfold callNative
      dsimp only at hcalls ⊢
      split
      · next haccepts =>
        rw [if_pos haccepts] at hcalls
        have hbody := Library.blames_body hmodule hexport
          { function := function.name, args, span := access.span }
        exact (traces_native hC hW hsite (hbody.mono hsite) hcalls).orAt hC hspan
      · exact (follows_refuse hC _ hspan).traces
  · cases access.args with
    | none => exact (follows_pure hC _).traces
    | some args => exact (follows_refuse hC _ hspan).traces

theorem follows_mapField {access : Access} (haccess : access.spans ⊆ spans) :
    Follows C s (mapField access) := by
  have hspan : access.span ∈ spans := haccess List.mem_cons_self
  unfold mapField
  split
  · exact follows_refuse hC _ hspan
  · refine (follows_readVariable hC access.module).bind hC fun value t _ => ?_
    split
    · split
      · exact follows_pure hC _
      · exact follows_refuse hC _ hspan
    · exact follows_refuse hC _ hspan

theorem traces_field (hW : C.AllowsWriting) (hmodules : s.imports.modules ⊆ Library.modules)
    {access : Access} (haccess : access.spans ⊆ spans)
    (hcalls : CallsFollow C invoke (access.invocations invoke s)) :
    Traces C invoke s (access.invocations invoke s) (field invoke access) := by
  unfold Access.invocations at *
  refine traces_get_bind ?_
  cases hget : s.imports.get? access.module with
  | some module =>
    rw [hget] at hcalls
    exact traces_moduleField hC hW (hmodules (ImportTable.mem_of_get? hget)) haccess hcalls
  | none =>
    dsimp only
    split
    · exact (follows_mapField hC haccess).traces
    · exact (follows_refuse hC _ (haccess List.mem_cons_self)).traces

theorem traces_callDeclared {call : Call} (hcall : call.spans ⊆ spans)
    (hcalls : CallsFollow C invoke (call.invocations s)) :
    Traces C invoke s (call.invocations s) (callDeclared invoke call) := by
  have hspan : call.span ∈ spans := hcall List.mem_cons_self
  unfold Call.invocations at *
  refine traces_get_bind ?_
  cases hfunction : s.function? call.name with
  | none => exact (follows_refuse hC _ hspan).traces
  | some declaration =>
    rw [hfunction] at hcalls
    dsimp only at hcalls ⊢
    split
    · exact (follows_refuse hC _ hspan).traces
    · next harity =>
      rw [if_neg harity] at hcalls
      refine (follows_operands hC (List.cons_subset.mp hcall).2).bindTraces hC fun values t ht => ?_
      exact traces_invoke hC ((hcalls.after ht) _ (List.mem_singleton.mpr rfl))

theorem traces_evaluate? (hW : C.AllowsWriting) (hmodules : s.imports.modules ⊆ Library.modules)
    {expr : Expr} (hexpr : expr.spans ⊆ spans)
    (hcalls : CallsFollow C invoke (expr.invocations invoke s)) :
    Traces C invoke s (expr.invocations invoke s) (evaluate? invoke expr) := by
  cases expr with
  | literal token => exact (follows_operand hC (hexpr (List.mem_singleton.mpr rfl))).map.traces
  | reference token => exact (follows_operand hC (hexpr (List.mem_singleton.mpr rfl))).map.traces
  | call call => exact traces_callDeclared hC hexpr hcalls
  | access access => exact traces_field hC hW hmodules hexpr hcalls

/-- An evaluation follows a conduct that allows for what evaluations do by themselves, if its calls
do. -/
theorem traces_evaluate (hW : C.AllowsWriting) (hmodules : s.imports.modules ⊆ Library.modules)
    {expr : Expr} (hexpr : expr.spans ⊆ spans)
    (hcalls : CallsFollow C invoke (expr.invocations invoke s)) :
    Traces C invoke s (expr.invocations invoke s) (evaluate invoke expr) := by
  refine (traces_evaluate? hC hW hmodules hexpr hcalls).bindFollows hC fun result t _ => ?_
  cases result with
  | some value => exact follows_pure hC value
  | none => exact follows_refuse hC _ (hexpr expr.span_mem_spans)

end Steps

end Exec

end Scripting
