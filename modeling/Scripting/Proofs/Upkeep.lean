import Scripting.Proofs.Building

/-!
# Evaluation keeps states fit

Evaluation leads from fit states to fit states and has fit results, if the calls that it makes do
(`Exec.supplies_evaluate`); and it makes these calls in fit states and with fit values. It fails
because a function is not declared only where it calls one by name.

What `Array.map` gives are the results of the calls that it makes itself (`Exec.ensures_map`), so it
is left to the norm to allow for these (`Norm.Permits`).
-/

namespace Scripting

open State

/-! ## Rules -/

namespace Exec

section Rules

variable {α β : Type} {N : Norm} {s t : State} {invoke : Invoke} {calls : List Invocation}
  {P P' : List Declaration → α → Prop} {Q : List Declaration → β → Prop}

/-- The step leads to fit states and fails for reasons that the norm allows. If it succeeds, then
the result has the property, by the functions that are declared in the end. -/
def StaysFit (N : Norm) (s : State) (step : Exec α) (P : List Declaration → α → Prop) : Prop :=
  Ensures step s (fun e t => s.Grows N t ∧ N.causes e.cause) fun a t =>
    s.Grows N t ∧ P t.functions a

/-- In addition, the listed calls are made as they should be. -/
def Supplies (N : Norm) (s : State) (calls : List Invocation) (step : Exec α)
    (P : List Declaration → α → Prop) : Prop :=
  (∀ i ∈ calls, i.Fit N) ∧ StaysFit N s step P

/-- Those of the calls that are made as they should be stay fit and have fit results. -/
def CallsStayFit (N : Norm) (invoke : Invoke) (calls : List Invocation) : Prop :=
  ∀ i ∈ calls, i.Fit N → StaysFit N i.state (invoke i.function i.values i.span) N.Admits

theorem CallsStayFit.after {step : Exec α} {next : α → State → List Invocation} {a : α}
    (h : CallsStayFit N invoke (s.after step next)) (hrun : s.run step = (.ok a, t)) :
    CallsStayFit N invoke (next a t) :=
  fun i hi => h i (mem_after.mpr ⟨a, t, hrun, hi⟩)

theorem staysFit_pure (hs : s.Fit N) {a : α} (h : P s.functions a) : StaysFit N s (pure a) P :=
  ⟨hs.grows, h⟩

theorem staysFit_throw (hs : s.Fit N) {error : Error} (h : N.causes error.cause) :
    StaysFit N s (throw error) P :=
  ⟨hs.grows, h⟩

theorem staysFit_refuse (hs : s.Fit N) {cause : Cause} (h : ¬ cause.IsUndefined) (span : Span) :
    StaysFit N s (refuse cause span) P :=
  staysFit_throw hs (N.defined cause h)

theorem staysFit_lift (hs : s.Fit N) {x : Except Error α} (hok : ∀ a, x = .ok a → P s.functions a)
    (herror : ∀ e, x = .error e → ¬ e.cause.IsUndefined) : StaysFit N s (liftM x) P :=
  ensures_lift (fun a ha => ⟨hs.grows, hok a ha⟩) fun e he => ⟨hs.grows, N.defined _ (herror e he)⟩

theorem staysFit_modify {f : State → State} (h : s.Grows N (f s)) :
    StaysFit N s (modify f) fun _ _ => True :=
  ⟨h, trivial⟩

theorem staysFit_get_bind {next : State → Exec β} (h : StaysFit N s (next s) Q) :
    StaysFit N s (get >>= next) Q :=
  Ensures.bind (ensures_get h)

theorem StaysFit.imp {step : Exec α} (h : StaysFit N s step P)
    (hP : ∀ functions a, P functions a → P' functions a) : StaysFit N s step P' :=
  Ensures.imp h (fun _ _ ht => ht) fun a t ht => ⟨ht.1, hP t.functions a ht.2⟩

theorem StaysFit.bind {step : Exec α} {next : α → Exec β} (h : StaysFit N s step P)
    (hnext : ∀ a t, s.run step = (.ok a, t) → s.Grows N t → P t.functions a →
      StaysFit N t (next a) Q) : StaysFit N s (step >>= next) Q := by
  refine Ensures.bind ((Ensures.withRun h).imp (fun _ _ ht => ht.1) ?_)
  rintro a t ⟨⟨hst, ha⟩, hrun⟩
  exact Ensures.imp (hnext a t hrun hst ha) (fun _ _ hu => ⟨hst.trans hu.1, hu.2⟩)
    fun _ _ hu => ⟨hst.trans hu.1, hu.2⟩

theorem StaysFit.map {step : Exec α} {f : α → β} (h : StaysFit N s step P)
    (hf : ∀ functions a, P functions a → Q functions (f a)) : StaysFit N s (f <$> step) Q :=
  Ensures.map (Ensures.imp h (fun _ _ ht => ht) fun a t ht => ⟨ht.1, hf t.functions a ht.2⟩)

/-- An error keeps its cause on its way. -/
theorem StaysFit.decorate {step : Exec α} {f : Error → Error} (h : StaysFit N s step P)
    (hf : ∀ e, (f e).cause = e.cause) : StaysFit N s (decorate f step) P :=
  Ensures.decorate (Ensures.imp h (fun e _ ht => ⟨ht.1, (hf e).symm ▸ ht.2⟩) fun _ _ ht => ht)

theorem StaysFit.supplies {step : Exec α} (h : StaysFit N s step P) : Supplies N s [] step P :=
  ⟨fun _ hi => absurd hi List.not_mem_nil, h⟩

theorem Supplies.decorate {step : Exec α} {f : Error → Error} (h : Supplies N s calls step P)
    (hf : ∀ e, (f e).cause = e.cause) : Supplies N s calls (decorate f step) P :=
  ⟨h.1, h.2.decorate hf⟩

theorem supplies_get_bind {next : State → Exec β} (h : Supplies N s calls (next s) Q) :
    Supplies N s calls (get >>= next) Q :=
  ⟨h.1, staysFit_get_bind h.2⟩

theorem Supplies.bind {n : α → State → List Invocation} {step : Exec α} {next : α → Exec β}
    (h : Supplies N s calls step P)
    (hnext : ∀ a t, s.run step = (.ok a, t) → s.Grows N t → P t.functions a →
      Supplies N t (n a t) (next a) Q) :
    Supplies N s (calls ++ s.after step n) (step >>= next) Q := by
  refine ⟨fun i hi => ?_, h.2.bind fun a t hrun hst ha => (hnext a t hrun hst ha).2⟩
  rcases List.mem_append.mp hi with hi | hi
  · exact h.1 i hi
  · obtain ⟨a, t, hrun, hi⟩ := mem_after.mp hi
    obtain ⟨hst, ha⟩ := Ensures.of_ok h.2 hrun
    exact (hnext a t hrun hst ha).1 i hi

/-- The calls come after the first step. -/
theorem StaysFit.bindSupplies {n : α → State → List Invocation} {step : Exec α} {next : α → Exec β}
    (h : StaysFit N s step P)
    (hnext : ∀ a t, s.run step = (.ok a, t) → s.Grows N t → P t.functions a →
      Supplies N t (n a t) (next a) Q) : Supplies N s (s.after step n) (step >>= next) Q :=
  h.supplies.bind hnext

/-- The calls are those of the first step. -/
theorem Supplies.bindStaysFit {step : Exec α} {next : α → Exec β} (h : Supplies N s calls step P)
    (hnext : ∀ a t, s.run step = (.ok a, t) → s.Grows N t → P t.functions a →
      StaysFit N t (next a) Q) : Supplies N s calls (step >>= next) Q :=
  ⟨h.1, h.2.bind hnext⟩

end Rules

/-! ## What `Array.map` gives -/

section Mapping

variable {α β : Type} {invoke : Invoke} {site : CallSite} {s t : State}

theorem after_bind (step : Exec α) (next : α → Exec β) (n : β → State → List Invocation) :
    s.after (step >>= next) n = s.after step fun a t => t.after (next a) n := by
  unfold State.after
  rw [run_bind]
  cases s.run step with
  | mk result t => cases result <;> rfl

theorem after_append (step : Exec α) (n n' : α → State → List Invocation) :
    s.after step (fun a t => n a t ++ n' a t) = s.after step n ++ s.after step n' := by
  unfold State.after
  split <;> rfl

theorem after_get_bind (next : State → Exec β) (n : β → State → List Invocation) :
    s.after (get >>= next) n = s.after (next s) n := rfl

theorem invocations_bind (work : Native α) (next : α → Native β) :
    (work >>= next).invocations invoke site s = work.invocations invoke site s ++
      s.after (native invoke site work) fun a t => (next a).invocations invoke site t := by
  show (work.bind next).invocations invoke site s = _
  induction work generalizing s with
  | done result => rfl
  | fail error => rfl
  | argument index k ih =>
    simp only [Native.bind, Native.invocations, native, after_bind, ih, after_append]
  | callback index k ih =>
    simp only [Native.bind, Native.invocations, native, after_bind, ih, after_append]
  | invoke function values k ih =>
    simp only [Native.bind, Native.invocations, native, after_get_bind]
    cases s.function? function.name with
    | none => rfl
    | some declaration => simp only [after_bind, ih, after_append, List.cons_append]
  | lookup name k ih =>
    simp only [Native.bind, Native.invocations, native, after_get_bind]
    split
    · simp only [after_bind, ih, after_append]
    · exact ih none
  | assign name value k ih =>
    simp only [Native.bind, Native.invocations, native, after_bind, ih, after_append]
  | write line k ih =>
    simp only [Native.bind, Native.invocations, native, after_bind, ih]
    rfl
  | read prompt k ih =>
    simp only [Native.bind, Native.invocations, native, after_bind, ih, after_append]
  | inspect k ih =>
    simp only [Native.bind, Native.invocations, native, after_bind, ih, after_append]

theorem after_of_run {step : Exec α} {n : α → State → List Invocation} {a : α}
    (hrun : s.run step = (.ok a, t)) : s.after step n = n a t := by
  rw [State.after, hrun]

theorem after_nil (step : Exec α) : s.after step (fun _ _ => []) = ([] : List β) := by
  unfold State.after
  split <;> rfl

/-- The calls return the items, in order. -/
def Returns (invoke : Invoke) (calls : List Invocation) (items : List Value) : Prop :=
  calls.map (fun i => (i.run invoke).1) = items.map fun item => .ok (some item)

theorem Returns.unique {calls : List Invocation} {items items' : List Value}
    (h : Returns invoke calls items) (h' : Returns invoke calls items') : items = items' := by
  refine List.map_injective_iff.mpr (fun item other heq => ?_) (h.symm.trans h')
  exact Option.some.inj (Except.ok.inj heq)

theorem ensures_call (function : Callback) (values : List Value) :
    Ensures (native invoke site (Native.call function values)) s (fun _ _ => True) fun result _ =>
      ∃ i, (Native.call function values).invocations invoke site s = [i] ∧
        (i.run invoke).1 = .ok result := by
  rw [Native.call, native, Native.invocations]
  refine Ensures.bind (ensures_get ?_)
  cases s.function? function.name with
  | none => exact trivial
  | some declaration =>
    refine Ensures.bind ((ensures_run _ s).imp (fun _ _ _ => trivial) fun result t hrun => ?_)
    refine ⟨⟨declaration, values, site.span, s⟩, ?_, ?_⟩
    · simp only [Native.invocations, after_nil]
    · rw [Invocation.run, hrun]

/-- The induction is on the items that are left. -/
theorem ensures_mapFrom (function : Callback) (results : List Value) (index : Nat)
    (items : List Value) :
    Ensures (native invoke site (Library.Arrays.mapFrom site function results index items)) s
      (fun _ _ => True) fun all _ => ∃ more, all = results.reverse ++ more ∧ Returns invoke
        ((Library.Arrays.mapFrom site function results index items).invocations invoke site s)
          more := by
  induction items generalizing s results index with
  | nil => exact ⟨[], (List.append_nil _).symm, rfl⟩
  | cons item items ih =>
    rw [Library.Arrays.mapFrom, native_bind, invocations_bind]
    refine Ensures.bind ((ensures_call function _).withRun.imp (fun _ _ _ => trivial) ?_)
    rintro result t ⟨⟨i, hcalls, hresult⟩, hrun⟩
    rw [hcalls, after_of_run hrun]
    cases result with
    | none => exact trivial
    | some value =>
      refine (ih (value :: results) (index + 1)).imp (fun _ _ _ => trivial) ?_
      rintro all u ⟨more, rfl, hmore⟩
      refine ⟨value :: more, by simp, ?_⟩
      unfold Returns at *
      rw [List.map_append, hmore, List.map_singleton, hresult]
      rfl

theorem invocations_arrayArgument (module : String) (index : Nat) :
    (Library.arrayArgument site module index).invocations invoke site s = [] := by
  have hcheck : ∀ (t : State) (value : Value) (expected : ValueType),
      (Library.checkType site module index value expected).invocations invoke site t = [] := by
    intro t value expected
    unfold Library.checkType
    split <;> rfl
  refine List.eq_nil_iff_forall_not_mem.mpr fun i hi => ?_
  obtain ⟨token, t, -, hi⟩ := mem_after.mp hi
  obtain ⟨value, u, -, hi⟩ := mem_after.mp hi
  change i ∈ (Library.checkType site module index value .array >>= _).invocations
    invoke site u at hi
  rw [invocations_bind, hcheck, List.nil_append] at hi
  obtain ⟨-, w, -, hi⟩ := mem_after.mp hi
  split at hi <;> cases hi

theorem ensures_map :
    Ensures (native invoke site (Library.Arrays.map site)) s (fun _ _ => True) fun result _ =>
      ∃ items, result = some (.array items) ∧
        Returns invoke ((Library.Arrays.map site).invocations invoke site s) items := by
  unfold Library.Arrays.map
  rw [native_bind, invocations_bind, invocations_arrayArgument]
  refine Ensures.bind ((ensures_run _ s).imp (fun _ _ _ => trivial) fun items t hitems => ?_)
  rw [after_of_run hitems, native_bind, invocations_bind]
  refine Ensures.bind ((ensures_run _ t).imp (fun _ _ _ => trivial) fun function u hfunction => ?_)
  rw [after_of_run hfunction]
  have hnone : (Native.function 1).invocations invoke site t = [] := by
    simp only [Native.function, Native.invocations, after_nil]
  rw [hnone]
  split
  · exact trivial
  · rw [native_bind, invocations_bind]
    refine Ensures.bind
      ((ensures_mapFrom function [] 0 items).withRun.imp (fun _ _ _ => trivial) ?_)
    rintro all w ⟨⟨more, hmore, hall⟩, hrun⟩
    obtain rfl : all = more := hmore
    refine ⟨all, rfl, ?_⟩
    rw [after_of_run hrun]
    show Returns invoke (_ ++ []) all
    rwa [List.append_nil]

end Mapping

/-! ## Reading -/

section Reading

variable {N : Norm} {s t : State}

theorem staysFit_readVariable (hs : s.Fit N) (name : String) :
    StaysFit N s (readVariable name) fun functions value => value.Fit N functions := by
  refine staysFit_get_bind (Ensures.bind (ensures_lift ?_ ?_))
  · rintro ⟨value, vars⟩ hread
    unfold Variables.read at hread
    split at hread
    · cases hread
    · next v hget =>
      split at hread
      · cases hread
      · next value' hpeek =>
        cases hread
        have hvalue := hs.peek hs.vars (Variables.mem_of_get? hget) hpeek
        refine ⟨hs.withVars (hs.vars.replace fun other hother => ?_), hvalue⟩
        cases hother
        exact hvalue
  · intro e hread
    refine ⟨hs.grows, N.defined _ ?_⟩
    unfold Variables.read at hread
    split at hread
    · cases hread
      exact id
    · split at hread
      · cases hread
        exact id
      · cases hread

/-- What a name stands for is fit; what is in a cell is so anyway. -/
theorem fit_of_meaning? (hs : s.Fit N) {name : String} {value : Value}
    (h : s.meaning? name = some (.value value)) : value.Fit N s.functions := by
  simp only [State.meaning?, State.plainMeaning?, Option.orElse_eq_orElse, Option.orElse_eq_or,
    Option.or_eq_some_iff] at h
  rcases h with (hvariable | ⟨-, hrecord | ⟨-, hfunction | ⟨-, hexport⟩⟩⟩) | ⟨-, hfield⟩
  · obtain ⟨v, hv, hmeaning⟩ := Option.bind_eq_some_iff.mp hvariable
    split at hmeaning
    · cases hmeaning
    · obtain ⟨held, hheld, hmeaning⟩ := Option.bind_eq_some_iff.mp hmeaning
      cases hmeaning
      exact hs.peek hs.vars (Variables.mem_of_get? hv) hheld
  · obtain ⟨record, -, hmeaning⟩ := Option.map_eq_some_iff.mp hrecord
    cases hmeaning
  · obtain ⟨declaration, hdeclaration, hmeaning⟩ := Option.map_eq_some_iff.mp hfunction
    cases hmeaning
    have hname : declaration.name = name := by simpa using List.find?_some hdeclaration
    exact Value.fit_function ⟨declaration, mem_functions_of_function? hdeclaration, hname⟩
  · obtain ⟨⟨module, item⟩, hfind, hmeaning⟩ := Option.bind_eq_some_iff.mp hexport
    obtain ⟨found, hfound, hitem⟩ := List.exists_of_findSome?_eq_some hfind
    obtain ⟨_, hexport, ⟨⟩⟩ := Option.map_eq_some_iff.mp hitem
    cases item with
    | field value =>
      cases hmeaning
      exact Library.fit_of_field (hs.modules hfound) hexport
    | function native =>
      cases hmeaning
      exact Value.fit_export _ _
  · obtain ⟨held, hheld, hmeaning⟩ := Option.map_eq_some_iff.mp hfield
    cases hmeaning
    obtain ⟨_, v, hv, hget⟩ := Variables.offers_of_findField? hheld
    unfold Variable.field? at hget
    split at hget
    · next fields hpeek => exact (hs.peek hs.vars (Variables.mem_of_get? hv) hpeek).get? hget
    · cases hget

theorem staysFit_meaning (hs : s.Fit N) (token : Token) :
    StaysFit N s (meaning token) fun functions meaning =>
      ∀ value, meaning = .value value → value.Fit N functions := by
  refine staysFit_get_bind ?_
  split
  · next meaning hmeaning =>
    refine staysFit_pure hs ?_
    rintro value rfl
    exact fit_of_meaning? hs hmeaning
  · exact staysFit_refuse hs id _

theorem staysFit_nameValue (hs : s.Fit N) (token : Token) :
    StaysFit N s (nameValue token) fun functions value => value.Fit N functions := by
  refine staysFit_get_bind ?_
  split
  · exact (staysFit_readVariable hs _).decorate fun _ => rfl
  · refine (staysFit_meaning hs token).bind fun meaning t _ ht hmeaning => ?_
    split
    · exact staysFit_pure ht.fit (hmeaning _ rfl)
    · refine staysFit_get_bind ?_
      split
      · next value hvalue => exact staysFit_pure ht.fit (ht.fit.cells _ _ hvalue)
      · exact staysFit_refuse ht.fit id _

theorem staysFit_ofLiteral (hs : s.Fit N) (token : Token) :
    StaysFit N s (liftM (Value.ofLiteral token) : Exec Value) fun functions value =>
      value.Fit N functions :=
  staysFit_lift hs (fun _ hvalue => Value.fit_ofLiteral hvalue) fun _ he =>
    Value.eq_locate_of_ofLiteral he ▸ id

theorem staysFit_operand (hs : s.Fit N) (token : Token) :
    StaysFit N s (operand token) fun functions value => value.Fit N functions := by
  have hliteral := staysFit_ofLiteral hs token
  unfold operand
  split
  · exact hliteral
  · exact hliteral
  · exact hliteral
  · exact staysFit_nameValue hs token
  · exact staysFit_refuse hs id _

theorem staysFit_operands (hs : s.Fit N) (tokens : List Token) :
    StaysFit N s (operands tokens) fun functions values =>
      ∀ value ∈ values, value.Fit N functions := by
  induction tokens generalizing s with
  | nil => exact staysFit_pure hs fun _ hv => absurd hv List.not_mem_nil
  | cons token tokens ih =>
    refine (staysFit_operand hs token).bind fun first t _ ht hfirst => ?_
    refine (ih ht.fit).bind fun rest u _ hu hrest => staysFit_pure hu.fit ?_
    exact List.forall_mem_cons.mpr ⟨hfirst.mono hu.subset, hrest⟩

/-- A function that an argument names is declared. -/
theorem staysFit_callback (hs : s.Fit N) (token : Token) :
    StaysFit N s (callback token) fun functions declaration => declaration ∈ functions := by
  refine (staysFit_operand hs token).bind fun value t _ ht hvalue => ?_
  cases value with
  | function ref =>
    obtain ⟨_ | module, name⟩ := ref
    · refine staysFit_get_bind ?_
      cases hfunction : t.function? name with
      | some declaration => exact staysFit_pure ht.fit (mem_functions_of_function? hfunction)
      | none =>
        obtain ⟨declaration, hmem, hname⟩ := hvalue.declared name .whole
        exact absurd hname (function?_eq_none_iff.mp hfunction declaration hmem)
    · exact staysFit_refuse ht.fit id _
  | _ => exact staysFit_refuse ht.fit id _

theorem staysFit_assignVariable (hs : s.Fit N) (name : String) {value : Value}
    (hvalue : value.Fit N s.functions) :
    StaysFit N s (assignVariable name value) fun _ _ => True := by
  refine staysFit_get_bind (Ensures.bind (ensures_lift ?_ ?_))
  · intro vars hassign
    unfold Variables.assign at hassign
    split at hassign
    · cases hassign
      exact ⟨hs.withVars (hs.vars.replace (Variable.fit_plain hvalue name)), trivial⟩
    · cases hassign
  · intro e hassign
    unfold Variables.assign at hassign
    split at hassign
    · cases hassign
    · cases hassign
      exact ⟨hs.grows, N.defined _ id⟩

/-! ## Library functions -/

theorem staysFit_argumentToken (hs : s.Fit N) (site : CallSite) (index : Nat) :
    StaysFit N s (argumentToken site index) fun _ _ => True := by
  unfold argumentToken
  split
  · exact staysFit_pure hs trivial
  · exact staysFit_throw hs (N.defined _ id)

theorem staysFit_readLine (hs : s.Fit N) (prompt : String) :
    StaysFit N s (readLine prompt) fun _ _ => True := by
  have hread := hs.withConsole (s.console.read prompt).2
  refine Ensures.bind (ensures_modifyGet ?_)
  split
  · exact ⟨hread, trivial⟩
  · exact ⟨hread, N.defined _ id⟩

variable {α : Type} {P : List Declaration → α → Prop} {invoke : Invoke}

/-- The induction is on the tree of requests; a call that is requested is one of those listed. -/
theorem supplies_native (hs : s.Fit N) {site : CallSite} {work : Native α}
    (hwork : work.Builds N P s.functions)
    (hcalls : CallsStayFit N invoke (work.invocations invoke site s)) :
    Supplies N s (work.invocations invoke site s) (native invoke site work) P := by
  induction work generalizing s with
  | done result => exact (staysFit_pure hs hwork).supplies
  | fail error => exact (staysFit_throw hs (N.defined _ hwork)).supplies
  | argument index next ih =>
    refine (staysFit_argumentToken hs site index).bindSupplies fun token t htoken ht _ => ?_
    refine (staysFit_operand ht.fit token).bindSupplies fun value u hvalue hu hfit => ?_
    exact ih value hu.fit (hwork _ (ht.trans hu).subset value hfit)
      ((hcalls.after htoken).after hvalue)
  | callback index next ih =>
    refine (staysFit_argumentToken hs site index).bindSupplies fun token t htoken ht _ => ?_
    refine (staysFit_callback ht.fit token).bindSupplies fun declaration u hvalue hu hmem => ?_
    exact ih _ hu.fit (hwork _ (ht.trans hu).subset _ ⟨declaration, hmem, rfl⟩)
      ((hcalls.after htoken).after hvalue)
  | invoke function values next ih =>
    obtain ⟨⟨known, hknown, hname⟩, hvalues, hnext⟩ := hwork
    rw [Native.invocations] at hcalls ⊢
    rw [native]
    refine supplies_get_bind ?_
    cases hfunction : s.function? function.name with
    | some declaration =>
      rw [hfunction] at hcalls
      have hrest : CallsStayFit N invoke
          (s.after (invoke declaration values site.span) fun result t =>
            (next result).invocations invoke site t) :=
        fun i hi => hcalls i (List.mem_cons_of_mem _ hi)
      have hi : (⟨declaration, values, site.span, s⟩ : Invocation).Fit N := ⟨hs, hvalues⟩
      have hinvoke : Supplies N s [⟨declaration, values, site.span, s⟩]
          (invoke declaration values site.span) N.Admits :=
        ⟨List.forall_mem_singleton.mpr hi, hcalls _ List.mem_cons_self hi⟩
      exact hinvoke.bind fun result t hresult ht hadmits => ih result ht.fit
        (hnext _ ht.subset result hadmits) (hrest.after hresult)
    | none => exact absurd hname (function?_eq_none_iff.mp hfunction known hknown)
  | lookup name next ih =>
    rw [Native.invocations] at hcalls ⊢
    rw [native]
    refine supplies_get_bind ?_
    split
    · next hcontains =>
      rw [if_pos hcontains] at hcalls
      exact (staysFit_readVariable hs name).bindSupplies fun value t hvalue ht hfit =>
        ih _ ht.fit (hwork _ ht.subset _ (Norm.admits_some hfit)) (hcalls.after hvalue)
    · next hcontains =>
      rw [if_neg hcontains] at hcalls
      exact ih none hs (hwork _ (List.Subset.refl _) none (N.admits_none _)) hcalls
  | assign name value next ih =>
    exact (staysFit_assignVariable hs name hwork.1).bindSupplies fun _ t hassign ht _ =>
      ih ht.fit (hwork.2 _ ht.subset) (hcalls.after hassign)
  | write line next ih =>
    have hwrite : StaysFit N s
        (modify fun state : State => { state with console := state.console.write line })
        fun _ _ => True := staysFit_modify (hs.withConsole _)
    refine hwrite.bindSupplies (n := fun _ t => next.invocations invoke site t)
      fun _ t hrun ht _ => ?_
    cases hrun
    exact ih ht.fit (hwork _ ht.subset) hcalls
  | read prompt next ih =>
    exact (staysFit_readLine hs prompt).bindSupplies fun line t hline ht _ =>
      ih line ht.fit (hwork _ ht.subset line) (hcalls.after hline)
  | inspect next ih =>
    have hoverview : StaysFit N s overview fun _ _ => True :=
      staysFit_get_bind (staysFit_pure hs trivial)
    exact hoverview.bindSupplies fun result t hresult ht _ =>
      ih result ht.fit (hwork _ ht.subset result) (hcalls.after hresult)

end Reading

end Exec

/-! ## Fields, calls and expressions -/

/-- The field is called, and it is that of `Array.map`. -/
def Access.Maps (access : Access) : Prop :=
  access.module = Library.Arrays.name ∧ access.field = "map" ∧ access.args.isSome

/-- The norm allows for what the evaluation of an expression does by itself, where these are the
calls that it makes and the functions that are declared. -/
structure Norm.Permits (N : Norm) (invoke : Invoke) (expr? : Option Expr) (calls : List Invocation)
    (functions : List Declaration) : Prop where
  mapped : ∀ access, expr? = some (.access access) → access.Maps → ∀ items,
    Exec.Returns invoke calls items → N.arrays items
  undeclared : ∀ call, expr? = some (.call call) →
    (∀ declaration ∈ functions, declaration.name ≠ call.name) →
    N.causes (.undefinedFunction call.name)

theorem Norm.Permits.mono {N : Norm} {invoke : Invoke} {expr? : Option Expr}
    {calls : List Invocation} {functions functions' : List Declaration}
    (h : N.Permits invoke expr? calls functions) (hsubset : functions ⊆ functions') :
    N.Permits invoke expr? calls functions' where
  mapped := h.mapped
  undeclared call hcall hnone := h.undeclared call hcall fun d hd => hnone d (hsubset hd)

namespace Exec

variable {N : Norm} {s t : State} {invoke : Invoke}

theorem supplies_moduleField (hs : s.Fit N) {module : Module} {access : Access}
    (hget : s.imports.get? access.module = some module)
    (hcalls : CallsStayFit N invoke (module.invocations invoke access s))
    (hmapped : access.Maps → ∀ items, Returns invoke (module.invocations invoke access s) items →
      N.arrays items) :
    Supplies N s (module.invocations invoke access s) (moduleField invoke module access)
      N.Admits := by
  have hmodule := hs.modules (ImportTable.mem_of_get? hget)
  have hname := ImportTable.name_of_get? hget
  unfold Module.invocations at *
  unfold moduleField
  rcases hexport : module.export? access.field with _ | function | value
  · exact (staysFit_refuse hs id _).supplies
  · cases hargs : access.args with
    | none => exact (staysFit_pure hs (Norm.admits_some (Value.fit_export _ _))).supplies
    | some args =>
      rw [hexport, hargs] at hcalls hmapped
      unfold callNative
      dsimp only at hcalls hmapped ⊢
      split
      · next haccepts =>
        rw [if_pos haccepts] at hcalls hmapped
        refine Supplies.decorate ?_ fun _ => rfl
        rcases Library.fits_of_export? (N := N) hmodule hexport with
          hfits | ⟨harrays, hfield, hfunction⟩
        · exact supplies_native hs (hfits _ _) hcalls
        · cases hfunction
          -- the items are fit since they are results of calls, and the array is one that is allowed
          have hnative := supplies_native hs (Library.builds_map _) hcalls
          refine ⟨hnative.1, (Ensures.and hnative.2 ensures_map).imp (fun _ _ ht => ht.1) ?_⟩
          rintro _ u ⟨⟨hsu, hitems⟩, items, rfl, hreturns⟩
          obtain ⟨_, ⟨⟩, hitems⟩ := hitems _ rfl
          refine ⟨hsu, Norm.admits_some
            (Value.fit_array (hmapped ⟨?_, hfield, ?_⟩ _ hreturns) hitems)⟩
          · exact hname.symm.trans harrays
          · rw [hargs]
            rfl
      · exact (staysFit_refuse hs id _).supplies
  · cases access.args with
    | none =>
      exact (staysFit_pure hs (Norm.admits_some (Library.fit_of_field hmodule hexport))).supplies
    | some args => exact (staysFit_refuse hs id _).supplies

theorem staysFit_mapField (hs : s.Fit N) (access : Access) :
    StaysFit N s (mapField access) N.Admits := by
  unfold mapField
  split
  · exact staysFit_refuse hs id _
  · refine (staysFit_readVariable hs access.module).bind fun value t _ ht hvalue => ?_
    cases value with
    | map fields =>
      dsimp only
      split
      · next found hfound => exact staysFit_pure ht.fit (Norm.admits_some (hvalue.get? hfound))
      · exact staysFit_refuse ht.fit id _
    | _ => exact staysFit_refuse ht.fit id _

theorem supplies_field (hs : s.Fit N) {access : Access}
    (hcalls : CallsStayFit N invoke (access.invocations invoke s))
    (hmapped : access.Maps → ∀ items, Returns invoke (access.invocations invoke s) items →
      N.arrays items) :
    Supplies N s (access.invocations invoke s) (field invoke access) N.Admits := by
  unfold Access.invocations at *
  refine supplies_get_bind ?_
  cases hget : s.imports.get? access.module with
  | some module =>
    rw [hget] at hcalls hmapped
    exact supplies_moduleField hs hget hcalls hmapped
  | none =>
    dsimp only
    split
    · exact (staysFit_mapField hs access).supplies
    · exact (staysFit_refuse hs id _).supplies

theorem supplies_callDeclared (hs : s.Fit N) {call : Call}
    (hcalls : CallsStayFit N invoke (call.invocations s))
    (hundeclared : (∀ declaration ∈ s.functions, declaration.name ≠ call.name) →
      N.causes (.undefinedFunction call.name)) :
    Supplies N s (call.invocations s) (callDeclared invoke call) N.Admits := by
  unfold Call.invocations at *
  refine supplies_get_bind ?_
  cases hfunction : s.function? call.name with
  | none =>
    exact (staysFit_throw hs (hundeclared (function?_eq_none_iff.mp hfunction))).supplies
  | some declaration =>
    rw [hfunction] at hcalls
    dsimp only at hcalls ⊢
    split
    · exact (staysFit_refuse hs id _).supplies
    · next harity =>
      rw [if_neg harity] at hcalls
      refine (staysFit_operands hs call.args).bindSupplies fun values t hvalues ht hfit => ?_
      have hi : (⟨declaration, values, call.span, t⟩ : Invocation).Fit N := ⟨ht.fit, hfit⟩
      exact ⟨List.forall_mem_singleton.mpr hi,
        hcalls.after hvalues _ (List.mem_singleton.mpr rfl) hi⟩

/-- Evaluation gives fit values. -/
theorem supplies_evaluate (hs : s.Fit N) {expr : Expr}
    (hcalls : CallsStayFit N invoke (expr.invocations invoke s))
    (hpermits : N.Permits invoke (some expr) (expr.invocations invoke s) s.functions) :
    Supplies N s (expr.invocations invoke s) (evaluate invoke expr) fun functions value =>
      value.Fit N functions := by
  have hvalue : Supplies N s (expr.invocations invoke s) (evaluate? invoke expr) N.Admits := by
    cases expr with
    | literal token =>
      exact ((staysFit_operand hs token).map fun _ _ h => Norm.admits_some h).supplies
    | reference token =>
      exact ((staysFit_operand hs token).map fun _ _ h => Norm.admits_some h).supplies
    | call call => exact supplies_callDeclared hs hcalls (hpermits.undeclared call rfl)
    | access access => exact supplies_field hs hcalls (hpermits.mapped access rfl)
  refine hvalue.bindStaysFit fun result t _ ht hresult => ?_
  cases result with
  | some value => exact staysFit_pure ht.fit (hresult value rfl)
  | none => exact staysFit_refuse ht.fit id _

end Exec

end Scripting
