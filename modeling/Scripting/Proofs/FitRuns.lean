import Scripting.Proofs.Unwinding
import Scripting.Proofs.Upkeep

/-!
# Runs keep states fit

A statement leads from fit states to fit states if the calls that it makes do and, in case that it
imports a file, the statements of the file do (`Exec.supplies_statement`). So a whole run does, as
soon as the norm allows for the arrays that each `Array.map` of the run puts together
(`Moment.Permitted`). The induction is over the call levels that are left, over the files that are
imported, and over the statements of a list; from it follows that all states that the run comes to
are fit, and so are the variables of the scopes that wait (`Moment.During.fit`).
-/

namespace Scripting

open State

/-! ## Statements -/

/-- The expression that a statement of the form evaluates. -/
def Form.expr? : Form → Option Expr
  | .call c => some (.call c)
  | .access a => some (.access a)
  | .declare _ value | .assign _ value | .returns value => some value
  | .function _ | .useModule _ | .useFile _ _ => none

namespace Exec

section Statements

variable {N : Norm} {s t : State} {invoke : Invoke} {name : String}

theorem staysFit_makeCell (hs : s.Fit N) {content : Option Value}
    (hcontent : N.Admits s.functions content) :
    StaysFit N s (makeCell content) fun _ _ => True :=
  ensures_makeCell ⟨hs.addCell hcontent, trivial⟩

theorem staysFit_pushRecord (hs : s.Fit N) (record : Record) :
    StaysFit N s (pushRecord record) fun _ _ => True :=
  staysFit_modify (hs.withLog _)

theorem staysFit_replaceVariable (hs : s.Fit N) {v : Variable} (hv : v.Fit N s.functions) :
    StaysFit N s (replaceVariable v) fun _ _ => True :=
  staysFit_modify (hs.withVars (hs.vars.replace hv))

theorem staysFit_declareVariable (hs : s.Fit N) {v : Variable} (hv : v.Fit N s.functions) :
    StaysFit N s (declareVariable v) fun _ _ => True := by
  refine staysFit_get_bind (Ensures.bind (ensures_lift ?_ ?_))
  · intro vars hdeclare
    unfold Variables.declare at hdeclare
    split at hdeclare
    · cases hdeclare
    · cases hdeclare
      exact ⟨hs.withVars (List.forall_mem_cons.mpr ⟨hv, hs.vars⟩), trivial⟩
  · intro e hdeclare
    unfold Variables.declare at hdeclare
    split at hdeclare
    · cases hdeclare
      exact ⟨hs.grows, N.defined _ id⟩
    · cases hdeclare

theorem staysFit_reference (hs : s.Fit N) (name : String) (token : Token) :
    StaysFit N s (reference name token) fun functions v => v.Fit N functions := by
  refine (staysFit_meaning hs token).bind fun meaning t _ ht hmeaning => ?_
  cases meaning with
  | value value => exact staysFit_pure ht.fit (Variable.fit_plain (hmeaning value rfl) name)
  | cell cell =>
    have halias : StaysFit N t
        (modify fun state : State => { state with log := state.log.addAlias cell name })
        fun _ _ => True := staysFit_modify (ht.fit.withLog _)
    exact halias.bind fun _ u _ hu _ => staysFit_pure hu.fit (Variable.fit_ofCell name cell)

theorem Supplies.orUndo {α : Type} {P : List Declaration → α → Prop} {calls : List Invocation}
    {step : Exec α} (h : Supplies N s calls step P) {undo : State → Variables}
    (hundo : ∀ t, s.Grows N t → (undo t).Fit N t.functions) :
    Supplies N s calls (orUndo step fun state => { state with vars := undo state }) P := by
  refine ⟨h.1, Ensures.orUndo (Ensures.imp h.2 ?_ fun _ _ ht => ht)⟩
  exact fun e t ht => ⟨ht.1.trans (ht.1.fit.withVars (hundo t ht.1)), ht.2⟩

theorem supplies_capture (hs : s.Fit N) {expr : Expr}
    (hcalls : CallsStayFit N invoke (expr.invocations invoke s))
    (hpermits : N.Permits invoke (some expr) (expr.invocations invoke s) s.functions)
    (cell : Cell) :
    Supplies N s (expr.invocations invoke s) (capture invoke name cell expr) fun _ _ => True := by
  refine (supplies_evaluate hs hcalls hpermits).bindStaysFit fun value t _ ht hvalue => ?_
  have hfill : StaysFit N t
      (modify fun state : State => { state with cells := state.cells.fill cell value })
      fun _ _ => True := staysFit_modify (ht.fit.fillCell cell hvalue)
  exact hfill.bind fun _ u _ hu _ => staysFit_pushRecord hu.fit _

/-- A value that is not that of a call is evaluated where no call is listed. -/
theorem staysFit_evaluate (hs : s.Fit N) {expr : Expr} (hcall : ¬ expr.isCall = true)
    (hpermits : N.Permits invoke (some expr) [] s.functions) :
    StaysFit N s (evaluate invoke expr) fun functions value => value.Fit N functions := by
  have hnone : expr.invocations invoke s = [] := invocations_of_not_isCall hcall
  refine (supplies_evaluate hs ?_ ?_).2
  · rw [hnone]
    exact fun i hi => absurd hi List.not_mem_nil
  · rwa [hnone]

theorem supplies_declare (hs : s.Fit N) {expr : Expr}
    (hcalls : CallsStayFit N invoke ((Form.declare name expr).invocations invoke s))
    (hpermits : N.Permits invoke (some expr) ((Form.declare name expr).invocations invoke s)
      s.functions) (span : Span) :
    Supplies N s ((Form.declare name expr).invocations invoke s) (declare invoke name expr span)
      fun _ _ => True := by
  rw [Form.invocations] at hcalls hpermits ⊢
  refine supplies_get_bind ?_
  by_cases hcontains : s.vars.contains name = true
  · rw [if_pos hcontains, if_neg (by simp [hcontains])]
    exact (staysFit_refuse hs id _).supplies
  · rw [if_neg hcontains]
    by_cases hcall : expr.isCall = true
    · rw [if_pos (by simp [hcontains, hcall])] at hcalls hpermits
      rw [if_pos hcall, if_pos (by simp [hcontains, hcall])]
      refine (staysFit_makeCell hs (N.admits_none _)).bindSupplies fun cell t ht hst _ => ?_
      rw [after_of_run ht] at hpermits
      refine (staysFit_declareVariable hst.fit (Variable.fit_ofCell name cell)).bindSupplies
        fun _ u hu htu _ => ?_
      rw [after_of_run hu] at hpermits
      refine (supplies_capture htu.fit ((hcalls.after ht).after hu)
        (hpermits.mono (hst.trans htu).subset) cell).orUndo fun w hw v hv => ?_
      exact hw.fit.vars v (Variables.mem_remove hv)
    · rw [if_neg (by simp [hcall])] at hpermits
      rw [if_neg hcall, if_neg (by simp [hcall])]
      refine StaysFit.supplies ?_
      split
      · exact (staysFit_reference hs name _).bind fun v t _ ht hv =>
          staysFit_declareVariable ht.fit hv
      · exact (staysFit_evaluate hs hcall hpermits).bind fun value t _ ht hvalue =>
          staysFit_declareVariable ht.fit (Variable.fit_plain hvalue name)

theorem supplies_rebind (hs : s.Fit N) {expr : Expr}
    (hcalls : CallsStayFit N invoke ((Form.assign (.var name) expr).invocations invoke s))
    (hpermits : N.Permits invoke (some expr)
      ((Form.assign (.var name) expr).invocations invoke s) s.functions) {previous : Variable}
    (hprevious : s.vars.get? name = some previous) :
    Supplies N s ((Form.assign (.var name) expr).invocations invoke s)
      (rebind invoke name previous expr) fun _ _ => True := by
  rw [Form.invocations, Variables.contains_eq_isSome, hprevious] at hcalls hpermits ⊢
  unfold rebind
  by_cases hcall : expr.isCall = true
  · rw [if_pos (by simp [hcall])] at hcalls hpermits
    rw [if_pos hcall, if_pos (by simp [hcall])]
    refine (staysFit_makeCell hs (N.admits_none _)).bindSupplies fun cell t ht hst _ => ?_
    rw [after_of_run ht] at hpermits
    refine (staysFit_replaceVariable hst.fit (Variable.fit_ofCell name cell)).bindSupplies
      fun _ u hu htu _ => ?_
    rw [after_of_run hu] at hpermits
    have hold := hs.vars previous (Variables.mem_of_get? hprevious)
    refine (supplies_capture htu.fit ((hcalls.after ht).after hu)
      (hpermits.mono (hst.trans htu).subset) cell).orUndo fun w hw => ?_
    refine hw.fit.vars.replace fun value hvalue => (hold value hvalue).mono ?_
    exact ((hst.trans htu).trans hw).subset
  · rw [if_neg (by simp [hcall])] at hpermits
    rw [if_neg hcall, if_neg (by simp [hcall])]
    refine StaysFit.supplies ?_
    split
    · next token =>
      refine (staysFit_ofLiteral hs token).bind fun value t _ ht hvalue => ?_
      refine (staysFit_readVariable ht.fit name).bind fun current u _ hu _ => ?_
      split
      · exact staysFit_refuse hu.fit id _
      · exact staysFit_assignVariable hu.fit name (hvalue.mono hu.subset)
    · exact (staysFit_reference hs name _).bind fun v t _ ht hv =>
        staysFit_replaceVariable ht.fit hv
    · exact (staysFit_evaluate hs hcall hpermits).bind fun value t _ ht hvalue =>
        staysFit_assignVariable ht.fit name hvalue

theorem staysFit_moveRecords (hs : s.Fit N) (name : String) (previous : Cell) (span : Span) :
    StaysFit N s (moveRecords name previous span) fun _ _ => True := by
  refine staysFit_get_bind ?_
  simp only
  split
  · exact staysFit_pure hs trivial
  · have hrelease : StaysFit N s
        (modify fun state : State => { state with log := state.log.release previous name })
        fun _ _ => True := staysFit_modify (hs.withLog _)
    refine hrelease.bind fun _ t _ ht _ => ?_
    split
    · refine (staysFit_readVariable ht.fit name).bind fun value u _ hu hvalue => ?_
      refine (staysFit_makeCell hu.fit (Norm.admits_some hvalue)).bind fun cell w _ hw _ => ?_
      refine (staysFit_replaceVariable hw.fit (Variable.fit_ofCell name cell)).bind
        fun _ x _ hx _ => ?_
      exact staysFit_pushRecord hx.fit _
    · exact staysFit_pure ht.fit trivial

theorem supplies_assign (hs : s.Fit N) {expr : Expr}
    (hcalls : CallsStayFit N invoke ((Form.assign (.var name) expr).invocations invoke s))
    (hpermits : N.Permits invoke (some expr)
      ((Form.assign (.var name) expr).invocations invoke s) s.functions) (span : Span) :
    Supplies N s ((Form.assign (.var name) expr).invocations invoke s)
      (assign invoke name expr span) fun _ _ => True := by
  refine supplies_get_bind ?_
  cases hprevious : s.vars.get? name with
  | none =>
    rw [Form.invocations, Variables.contains_eq_isSome, hprevious]
    exact (staysFit_refuse hs id _).supplies
  | some previous =>
    refine (supplies_rebind hs hcalls hpermits hprevious).bindStaysFit fun _ t _ ht _ => ?_
    split
    · exact staysFit_moveRecords ht.fit name _ _
    · exact staysFit_pure ht.fit trivial

theorem supplies_assignField (hs : s.Fit N) {map field : String} {expr : Expr}
    (hcalls : CallsStayFit N invoke ((Form.assign (.field map field) expr).invocations invoke s))
    (hpermits : N.Permits invoke (some expr)
      ((Form.assign (.field map field) expr).invocations invoke s) s.functions) (span : Span) :
    Supplies N s ((Form.assign (.field map field) expr).invocations invoke s)
      (assignField invoke map field expr span) fun _ _ => True := by
  rw [Form.invocations] at hcalls hpermits ⊢
  refine (staysFit_readVariable hs map).bindSupplies fun current t ht hst hcurrent => ?_
  replace hcalls := hcalls.after ht
  rw [after_of_run ht] at hpermits
  cases current with
  | map fields =>
    refine (supplies_evaluate hst.fit hcalls (hpermits.mono hst.subset)).bindStaysFit
      fun value u _ hu hvalue => ?_
    have hassign : StaysFit N u (assignVariable map (.map (Fields.insert field value fields)))
        fun _ _ => True :=
      staysFit_assignVariable hu.fit map ((hcurrent.mono hu.subset).insert field hvalue)
    split
    · split
      · exact staysFit_refuse hu.fit id _
      · exact hassign
    · exact hassign
  | _ => exact (staysFit_refuse hst.fit id _).supplies

theorem staysFit_declareFunction (hs : s.Fit N) (declaration : Declaration) :
    StaysFit N s (declareFunction declaration) fun _ _ => True := by
  refine staysFit_get_bind ?_
  split
  · exact staysFit_refuse hs id _
  · next hnone =>
    have hfree : s.function? declaration.name = none := by simpa using hnone
    exact staysFit_modify (hs.addFunction (function?_eq_none_iff.mp hfree))

theorem supplies_useField (hs : s.Fit N) {access : Access}
    (hcalls : CallsStayFit N invoke (access.invocations invoke s))
    (hpermits : N.Permits invoke (some (.access access)) (access.invocations invoke s)
      s.functions) :
    Supplies N s (access.invocations invoke s) (useField invoke access) fun _ _ => True := by
  refine (supplies_field hs hcalls (hpermits.mapped access rfl)).bindStaysFit
    fun result t _ ht hresult => ?_
  split
  · exact (staysFit_makeCell ht.fit hresult).bind fun cell u _ hu _ =>
      staysFit_pushRecord hu.fit _
  · exact staysFit_pure ht.fit trivial

theorem supplies_returnValue (hs : s.Fit N) {expr : Expr}
    (hcalls : CallsStayFit N invoke (expr.invocations invoke s))
    (hpermits : N.Permits invoke (some expr) (expr.invocations invoke s) s.functions)
    (scope : Option String) (span : Span) :
    Supplies N s (expr.invocations invoke s) (returnValue invoke scope expr span)
      fun functions flow => N.Admits functions flow.value? := by
  refine (supplies_evaluate hs hcalls hpermits).bindStaysFit fun value t _ ht hvalue => ?_
  refine (staysFit_makeCell ht.fit (Norm.admits_some hvalue)).bind fun cell u _ hu _ => ?_
  refine (staysFit_pushRecord hu.fit _).bind fun _ w _ hw _ => staysFit_pure hw.fit ?_
  exact Norm.admits_some (hvalue.mono (hu.trans hw).subset)

theorem modules_merge {imports : ImportTable} (hs : s.Fit N)
    (himports : imports.modules ⊆ Library.modules) :
    (s.imports.merge imports).modules ⊆ Library.modules :=
  fun _ hm => (ImportTable.mem_merge hm).elim (fun hm => hs.modules hm) fun hm => himports hm

/-- A statement makes its calls as they should be made, and leads to a fit state if its calls do
and, in case it imports a file, the statements of the file do. -/
theorem supplies_statement (hs : s.Fit N) {st : Statement} (hstandard : st.form.Standard)
    (hcalls : CallsStayFit N invoke (st.form.invocations invoke s))
    (hpermits : N.Permits invoke st.form.expr? (st.form.invocations invoke s) s.functions)
    (hfile : ∀ file program, st.form = .useFile file program →
      StaysFit N (s.prepare program) (statementsOf invoke program.statements) fun _ _ => True) :
    Supplies N s (st.form.invocations invoke s) (statement invoke st)
      fun functions flow => N.Admits functions flow.value? := by
  have hgoOn : ∀ {α : Type} {P : List Declaration → α → Prop} {calls : List Invocation}
      {step : Exec α}, Supplies N s calls step P →
      Supplies N s calls (do let _ ← step; return Flow.goOn)
        fun functions flow => N.Admits functions flow.value? :=
    fun h => h.bindStaysFit fun _ t _ ht _ => staysFit_pure ht.fit (N.admits_none _)
  rw [statement_eq]
  refine Supplies.decorate ?_ fun _ => rfl
  cases hform : st.form with
  | function declaration =>
    rw [formOf]
    exact hgoOn (staysFit_declareFunction hs declaration).supplies
  | call call =>
    rw [hform] at hcalls hpermits
    rw [formOf]
    exact hgoOn (supplies_callDeclared hs hcalls (hpermits.undeclared call rfl))
  | access access =>
    rw [hform] at hcalls hpermits
    rw [formOf]
    exact hgoOn (supplies_useField hs hcalls hpermits)
  | declare name value =>
    rw [hform] at hcalls hpermits
    rw [formOf]
    exact hgoOn (supplies_declare hs hcalls hpermits st.span)
  | assign target value =>
    rw [hform] at hcalls hpermits
    cases target with
    | var name =>
      rw [formOf]
      exact hgoOn (supplies_assign hs hcalls hpermits st.span)
    | field map field =>
      rw [formOf]
      exact hgoOn (supplies_assignField hs hcalls hpermits st.span)
  | returns value =>
    rw [hform] at hcalls hpermits
    rw [formOf]
    exact supplies_returnValue hs hcalls hpermits st.scope st.span
  | useModule module =>
    rw [hform] at hstandard
    rw [formOf]
    have hinsert : StaysFit N s
        (modify fun state : State => { state with imports := state.imports.insert module })
        fun _ _ => True := staysFit_modify (hs.withImports fun m hm =>
      (ImportTable.mem_insert hm).elim (fun hm => hs.modules hm) fun heq => heq ▸ hstandard)
    exact hgoOn hinsert.supplies
  | useFile file program =>
    rw [hform] at hstandard
    rw [formOf, programOf_eq]
    have hmerge : StaysFit N s (mergeImports program.imports) fun _ _ => True :=
      staysFit_modify (hs.withImports (modules_merge hs hstandard.1))
    refine (hmerge.bind fun _ t ht hst _ => ?_).supplies
    cases ht
    exact ((hfile file program hform).decorate fun e => (e.claimedBy_cause (some file)).1).bind
      fun _ u _ hu _ => staysFit_pure hu.fit (N.admits_none _)

end Statements

end Exec

/-! ## Calls -/

section Calls

variable {N : Norm} {i : Invocation}

/-- Parameters are bound to the values of the call. -/
theorem Exec.exists_value_of_bindParams {function : String} {span : Span} {index : Nat}
    {params : List Param} {values : List Value} {bound : List Variable}
    (h : Exec.bindParams function span index params values = .ok bound) :
    ∀ v ∈ bound, ∃ name, ∃ value ∈ values, v = .plain name value := by
  induction params generalizing index values bound with
  | nil =>
    cases h
    exact fun v hv => absurd hv List.not_mem_nil
  | cons param params ih =>
    cases values with
    | nil =>
      cases h
      exact fun v hv => absurd hv List.not_mem_nil
    | cons value values =>
      have hcons : ∀ {x : Except Error (List Variable)},
          (do return Variable.plain param.name value :: (← x)) = .ok bound →
          ∃ rest, x = .ok rest ∧ bound = .plain param.name value :: rest := by
        intro x hx
        obtain ⟨rest, hrest, hbound⟩ := exists_of_bind_eq_ok hx
        exact ⟨rest, hrest, (Except.ok.inj hbound).symm⟩
      have hrest : ∃ rest, bindParams function span (index + 1) params values = .ok rest ∧
          bound = .plain param.name value :: rest := by
        rw [bindParams] at h
        split at h
        · split at h
          · cases h
          · exact hcons h
        · exact hcons h
      obtain ⟨rest, hrest, rfl⟩ := hrest
      refine List.forall_mem_cons.mpr ⟨⟨_, value, List.mem_cons_self, rfl⟩, fun v hv => ?_⟩
      obtain ⟨name, held, hheld, rfl⟩ := ih hrest v hv
      exact ⟨name, held, List.mem_cons_of_mem _ hheld, rfl⟩

theorem Invocation.Fit.enter (h : i.Fit N) {entry : State} (hentry : i.entry? = some entry)
    (hmodules : entry.imports.modules ⊆ Library.modules) : i.state.Grows N entry := by
  obtain ⟨bound, hbound, rfl⟩ := exists_bound_of_entry? hentry
  refine ⟨List.suffix_rfl, fun v hv => ?_, h.state.cells, h.state.names, hmodules⟩
  obtain ⟨name, value, hvalue, rfl⟩ :=
    Exec.exists_value_of_bindParams hbound v (Variables.mem_ofList hv)
  exact Variable.fit_plain (h.values value hvalue) name

/-- The caller finds its scope again, and more functions perhaps. -/
theorem Invocation.Fit.leave (h : i.Fit N) {t : State} (ht : i.state.Grows N t) :
    i.state.Grows N (i.leave t) :=
  ⟨ht.functions, h.state.vars.mono ht.subset, ht.fit.cells, ht.fit.names, h.state.modules⟩

end Calls

/-! ## Runs -/

/-- The norm allows for what the statement does by itself. -/
def Moment.Permitted (N : Norm) (m : Moment) : Prop :=
  N.Permits (callWithin m.levels) m.statement.form.expr?
    (m.statement.form.invocations (callWithin m.levels) m.state) m.state.functions

namespace Exec

variable {N : Norm} {levels : Nat} {scopes : List Variables} {s t : State}

/-- The statements of a list, one after another. -/
theorem staysFit_list {statements : List Statement}
    (hone : ∀ st ∈ statements, ∀ s : State, (⟨levels, scopes, s, st⟩ : Moment).Ready → s.Fit N →
      (∀ m : Moment, m.During levels scopes [st] s → m.Permitted N) →
      StaysFit N s (statement (callWithin levels) st) fun functions flow =>
        N.Admits functions flow.value?)
    (hready : s.ReadyFor statements) (hs : s.Fit N)
    (h : ∀ m : Moment, m.During levels scopes statements s → m.Permitted N) :
    StaysFit N s (statementsOf (callWithin levels) statements) fun functions flow =>
      N.Admits functions flow.value? := by
  induction statements generalizing s with
  | nil =>
    rw [statementsOf]
    exact staysFit_pure hs (N.admits_none _)
  | cons first rest ih =>
    obtain ⟨hfirst, hrest⟩ := List.forall_mem_cons.mp hone
    have hstep := hfirst s (hready.first _ _) hs fun m hm => h m (Moment.During.trans .here hm)
    rw [statementsOf]
    refine hstep.bind fun flow t hrun ht hflow => ?_
    cases flow with
    | goOn => exact ih hrest (hready.next hrun) ht.fit fun m hm => h m (.next hrun hm)
    | returned value => exact staysFit_pure ht.fit hflow

/-- The induction is over the files that are imported. -/
theorem supplies_of_calls
    (hcalls : ∀ i : Invocation, i.state.Sound .ofLoaded → i.function ∈ i.state.functions →
      i.Fit N → (∀ m : Moment, m.InCall levels scopes i → m.Permitted N) →
      StaysFit N i.state (callWithin levels i.function i.values i.span) N.Admits)
    (st : Statement) (hready : (⟨levels, scopes, s, st⟩ : Moment).Ready) (hs : s.Fit N)
    (h : ∀ m : Moment, m.During levels scopes [st] s → m.Permitted N) :
    Supplies N s (st.form.invocations (callWithin levels) s) (statement (callWithin levels) st)
      fun functions flow => N.Admits functions flow.value? := by
  induction st using Statement.induction generalizing s with
  | h st ih =>
    refine supplies_statement hs (hready.forms _ (mem_forms_self _)) (fun i hi hfit => ?_)
      (h _ .here) fun file program hform => ?_
    · obtain ⟨hadvances, hmem⟩ := hready.invoked i hi
      exact hcalls i hadvances.sound hmem hfit fun m hm => h m (hm.during hi)
    · have hinner := hready.file hform
      have hprepared := (hs.withImports hinner.sound.imports).fit
      refine (staysFit_list (fun inner hmem t hin ht hm => ?_) hinner hprepared
        fun m hm => h m (.file hform hm)).imp fun _ _ _ => trivial
      exact (ih file program hform inner hmem hin ht hm).2

/-- A call keeps the state fit if the norm allows for all that happens in it. -/
theorem staysFit_callWithin {i : Invocation} (hsound : i.state.Sound .ofLoaded)
    (hmem : i.function ∈ i.state.functions) (hi : i.Fit N)
    (h : ∀ m : Moment, m.InCall levels scopes i → m.Permitted N) :
    StaysFit N i.state (callWithin levels i.function i.values i.span) N.Admits := by
  induction levels generalizing scopes i with
  | zero => exact staysFit_refuse hi.state id _
  | succ levels ih =>
    refine ensures_callWithin (fun _ cause hcause => ⟨hi.state.grows, N.defined cause
      (hcause.elim id (fun _ _ _ => id) fun _ _ _ _ => id)⟩) fun k entry hk hentry => ?_
    cases hk
    have hready := Invocation.readyFor hsound hmem hentry
    have hentered := hi.enter hentry hready.sound.imports
    have hbody := staysFit_list (fun st _ t hin ht hm =>
      (supplies_of_calls (fun j hj hjmem hjfit hjm => ih hj hjmem hjfit hjm) st hin ht hm).2)
      hready hentered.fit fun m hm => h m ⟨levels, _, rfl, hentry, hm⟩
    refine Ensures.imp hbody (fun e t ht => ⟨hi.leave (hentered.trans ht.1), ?_⟩)
      fun flow t ht => ⟨hi.leave (hentered.trans ht.1), ht.2⟩
    rw [Declaration.claimError_eq, (e.claimedBy_cause _).1]
    exact ht.2

end Exec

section Runs

variable {N : Norm}

/-- A statement keeps the state fit if the norm allows for all that happens while it runs. -/
theorem Moment.Ready.supplies {m : Moment} (hready : m.Ready) (hs : m.state.Fit N)
    (h : ∀ inner : Moment, inner.During m.levels m.suspended [m.statement] m.state →
      inner.Permitted N) :
    Exec.Supplies N m.state (m.statement.form.invocations (callWithin m.levels) m.state)
      (Exec.statement (callWithin m.levels) m.statement) fun functions flow =>
        N.Admits functions flow.value? :=
  Exec.supplies_of_calls (fun _ hsound hmem hi hin =>
    Exec.staysFit_callWithin hsound hmem hi hin) m.statement hready hs h

theorem Moment.Ready.grows {m : Moment} (hready : m.Ready) (hs : m.state.Fit N)
    (h : ∀ inner : Moment, inner.During m.levels m.suspended [m.statement] m.state →
      inner.Permitted N) : m.state.Grows N m.after :=
  (Exec.Ensures.imp (hready.supplies hs h).2 (fun _ _ ht => ht.1) fun _ _ ht => ht.1).state

variable {levels : Nat} {scopes : List Variables} {statements : List Statement} {s : State}

/-- Statements keep the state fit if the norm allows for all that happens while they run. -/
theorem State.ReadyFor.staysFit (hready : s.ReadyFor statements) (hs : s.Fit N)
    (h : ∀ m : Moment, m.During levels scopes statements s → m.Permitted N) :
    Exec.StaysFit N s (Exec.statementsOf (callWithin levels) statements) fun functions flow =>
      N.Admits functions flow.value? :=
  Exec.staysFit_list (fun _ _ _ hin ht hm => (hin.supplies ht hm).2) hready hs h

/-- All states that a run comes to are fit and have grown, and the scopes that wait are fit. -/
theorem Moment.During.fit {m : Moment} (hm : m.During levels scopes statements s)
    (hready : s.ReadyFor statements) (hs : s.Fit N)
    (hscopes : ∀ vars ∈ scopes, vars.Fit N s.functions)
    (h : ∀ m : Moment, m.During levels scopes statements s → m.Permitted N) :
    s.Grows N m.state ∧ ∀ vars ∈ m.suspended, vars.Fit N m.state.functions := by
  induction hm with
  | here => exact ⟨hs.grows, hscopes⟩
  | @next levels scopes _ _ _ _ _ hrun _ ih =>
    have hfirst := hready.first levels scopes
    obtain ⟨ht, -⟩ := Exec.Ensures.of_ok (hfirst.supplies hs fun m hm =>
      h m (Moment.During.trans .here hm)).2 hrun
    obtain ⟨hm, hsuspended⟩ := ih (hready.next hrun) ht.fit
      (fun vars hvars => (hscopes vars hvars).mono ht.subset) fun m hm => h m (.next hrun hm)
    exact ⟨ht.trans hm, hsuspended⟩
  | @file levels scopes _ _ _ _ _ _ hform _ ih =>
    have hinner := (hready.first levels scopes).file hform
    have hprepared := hs.withImports hinner.sound.imports
    obtain ⟨hm, hsuspended⟩ := ih hinner hprepared.fit hscopes fun m hm => h m (.file hform hm)
    exact ⟨hprepared.trans hm, hsuspended⟩
  | @call levels scopes _ _ s _ _ i hi hentry _ ih =>
    have hfirst := hready.first (levels + 1) scopes
    have hinner := hfirst.call hi hentry
    have hfit := (hfirst.supplies hs fun m hm => h m (Moment.During.trans .here hm)).1 i hi
    have hcalled : s.Grows N i.state := ⟨(hfirst.invoked i hi).1.functions, hfit.state⟩
    have hentered := hfit.enter hentry hinner.sound.imports
    obtain ⟨hm, hsuspended⟩ := ih hinner hentered.fit
      (List.forall_mem_cons.mpr ⟨hfit.state.vars.mono hentered.subset, fun vars hvars =>
        (hscopes vars hvars).mono (hcalled.trans hentered).subset⟩)
      fun m hm => h m (.call hi hentry hm)
    exact ⟨(hcalled.trans hentered).trans hm, hsuspended⟩

/-- A program that is run from a fit state leads to one. -/
theorem State.Fit.execute {program : Program} (hs : s.Fit N)
    (hready : (s.prepare program).ReadyFor program.statements)
    (h : ∀ m : Moment, m.During callLimit [] program.statements (s.prepare program) →
      m.Permitted N) : s.Grows N (s.execute program).2 := by
  have hprepared := hs.withImports hready.sound.imports
  have hrun := hready.staysFit hprepared.fit h
  rw [execute_state]
  exact (Exec.Ensures.imp hrun (fun _ _ ht => hprepared.trans ht.1) fun _ _ ht =>
    hprepared.trans ht.1).state

end Runs

end Scripting
