import Scripting.Proofs.Bindings

/-!
# Statements and calls

What a statement does to the scope it runs in can be read off its form: a declaration or an
assignment writes the variable that it names, a call of `IO.scan` the variable that it reads into,
and all other statements write nothing (`Form.writes`). Only imports change the import table.

`ensures_statement` shows this for every statement, given that calls of declared functions leave the
scope alone, and `sound_callWithin` shows the latter by induction over the call levels: the body of a
function runs in a scope of its own, which is dropped when it ends.
-/

namespace Scripting

open State

namespace Form

/-- The variables of the scope that a statement of the form may change when it succeeds. -/
def writes : Form → Set String
  | .access a => a.scanned
  | .declare name _ => {name}
  | .assign (.var name) _ => {name}
  | .assign (.field map _) _ => {map}
  | _ => ∅

/-- The variables of the scope that a statement of the form may have changed when it fails. -/
def scanned : Form → Set String
  | .access a => a.scanned
  | .declare _ value | .assign _ value | .returns value => value.scanned
  | _ => ∅

/-- Whether a statement of the form may change the import table. -/
def Imports : Form → Prop
  | .useModule _ | .useFile _ _ => True
  | _ => False

theorem writes_of_isExport {form : Form} (h : form.IsExport) : form.writes = ∅ := by
  cases form with
  | function | useModule | useFile => rfl
  | _ => cases h

theorem scanned_of_isExport {form : Form} (h : form.IsExport) : form.scanned = ∅ := by
  cases form with
  | function | useModule | useFile => rfl
  | _ => cases h

end Form

/-! ## Running statements one by one -/

/-- Statements are as deep as the files that they import. -/
theorem Statement.induction {P : Statement → Prop}
    (h : ∀ st : Statement, (∀ file program, st.form = .useFile file program →
      ∀ inner ∈ program.statements, P inner) → P st) (st : Statement) : P st :=
  h st fun _ _ _ inner _ => Statement.induction h inner
termination_by sizeOf st
decreasing_by
  rename_i program hform hinner
  have hlt := List.sizeOf_lt_of_mem hinner
  have hprogram : sizeOf program.statements < sizeOf program := by
    cases program
    simp
    omega
  have hst : sizeOf st.form < sizeOf st := by
    cases st
    simp
    omega
  rw [hform] at hst
  simp at hst
  omega

namespace Exec

variable {D : Discipline} {X : Set String} {s : State} {invoke : Invoke}

theorem statement_eq (invoke : Invoke) (st : Statement) :
    statement invoke st = decorate (·.orAt st.span) (formOf invoke st.span st.scope st.form) := by
  cases st
  rw [statement]

theorem programOf_eq (invoke : Invoke) (program : Program) :
    programOf invoke program = statementsOf invoke program.statements := by
  cases program
  rw [programOf]

theorem run_statementsOf_cons {first : Statement} {rest : List Statement} {t : State}
    (hfirst : s.run (statement invoke first) = (.ok .goOn, t)) :
    s.run (statementsOf invoke (first :: rest)) = t.run (statementsOf invoke rest) := by
  rw [statementsOf, run_bind, hfirst]

theorem exists_of_run_statementsOf_cons {first : Statement} {rest : List Statement} {t : State}
    (h : s.run (statementsOf invoke (first :: rest)) = (.ok .goOn, t)) :
    ∃ u, s.run (statement invoke first) = (.ok .goOn, u) ∧
      u.run (statementsOf invoke rest) = (.ok .goOn, t) := by
  rw [statementsOf, run_bind] at h
  split at h
  · next flow u hfirst =>
    cases flow with
    | goOn => exact ⟨u, hfirst, h⟩
    | returned value => cases h
  · cases h

/-- What every statement of a list makes of a state with a property, the list makes of it. -/
theorem ensures_statementsOf {P : State → Prop} {statements : List Statement} (hs : P s)
    (h : ∀ st ∈ statements, ∀ t, P t →
      Ensures (statement invoke st) t (fun _ u => P u) fun _ u => P u) :
    Ensures (statementsOf invoke statements) s (fun _ t => P t) fun _ t => P t := by
  induction statements generalizing s with
  | nil =>
    rw [statementsOf]
    exact ensures_pure hs
  | cons first rest ih =>
    obtain ⟨hfirst, hrest⟩ := List.forall_mem_cons.mp h
    rw [statementsOf]
    refine Ensures.bind ((hfirst s hs).imp (fun _ _ ht => ht) fun flow t ht => ?_)
    cases flow with
    | goOn => exact ih ht hrest
    | returned value => exact ht

/-- What every statement of a list keeps is kept by the list. A statement has to keep it only in the
state that the statements before it lead to. -/
theorem keeps_statementsOf {I : Prop} {statements : List Statement} (hs : s.Sound D)
    (h : ∀ before st after t, statements = before ++ st :: after →
      s.run (statementsOf invoke before) = (.ok .goOn, t) → Advances D X I s t →
        Keeps D X I t (statement invoke st)) :
    Keeps D X I s (statementsOf invoke statements) := by
  induction statements generalizing s with
  | nil =>
    rw [statementsOf]
    exact keeps_pure hs _
  | cons first rest ih =>
    have hfirst : Keeps D X I s (statement invoke first) :=
      h [] first rest s rfl (by rw [statementsOf]; rfl) hs.refl
    rw [statementsOf]
    refine Ensures.bind (hfirst.withRun.imp (fun _ _ ht => ht.1) ?_)
    rintro flow t ⟨ht, hrun⟩
    cases flow with
    | goOn =>
      refine Keeps.after ht (ih ht.sound fun before st after u hsplit hbefore hu => ?_)
      refine h (first :: before) st after u (by rw [hsplit]; rfl) ?_ (ht.trans hu)
      rw [run_statementsOf_cons hrun, hbefore]
    | returned value => exact ht

/-! ## The forms of statements -/

theorem keeps_declareFunction (hs : s.Sound D) {declaration : Declaration}
    (hallowed : ∀ form ∈ (Form.function declaration).forms, D.Allows form) :
    Keeps D ∅ False s (declareFunction declaration) := by
  refine Ensures.bind (ensures_get ?_)
  split
  · exact hs.refl
  · refine ensures_modify ?_
    refine ⟨⟨hs.log, hs.vars, ?_, hs.imports⟩, .refl _, .refl _, List.suffix_cons _ _,
      fun _ => rfl, fun _ _ => rfl, D.law_refl _, fun _ _ h => h⟩
    exact List.forall_mem_cons.mpr ⟨hallowed, hs.functions⟩

theorem keeps_useField (hinvoke : invoke.Sound D) (hs : s.Sound D) (access : Access) :
    Keeps D access.scanned False s (useField invoke access) := by
  refine Ensures.bind ((evaluates_field hinvoke hs access).imp (fun _ _ ht => ht) ?_)
  rintro result t ⟨ht, -⟩
  split
  · refine Ensures.bind (ensures_makeCell (ensures_pushRecord ?_))
    exact ht.trans (ht.sound.addRecord _ (r := ⟨_, _, none, [], _⟩) rfl nofun rfl)
  · exact ht

theorem ensures_returnValue (hinvoke : invoke.Sound D) (hs : s.Sound D)
    (scope : Option String) (expr : Expr) (span : Span) :
    Ensures (returnValue invoke scope expr span) s
      (fun _ t => Advances D expr.scanned False s t) fun _ t =>
        Advances D ∅ False s t := by
  refine Ensures.bind ((ensures_evaluate hinvoke hs expr).imp (fun _ _ ht => ht) ?_)
  intro value t ht
  refine Ensures.bind (ensures_makeCell (Ensures.bind (ensures_pushRecord ?_)))
  exact ht.trans (ht.sound.addRecord value (r := ⟨_, _, none, [], _⟩) rfl nofun rfl)

theorem advances_setImports (hs : s.Sound D) {imports : ImportTable}
    (himports : imports.modules ⊆ Library.modules) :
    Advances D ∅ True s { s with imports } :=
  ⟨⟨hs.log, hs.vars, hs.functions, himports⟩, .refl _, .refl _, List.suffix_refl _,
    fun h => (h trivial).elim, fun _ _ => rfl, D.law_refl _, fun _ _ h => h⟩

theorem keeps_mergeImports (hs : s.Sound D) {imports : ImportTable}
    (himports : imports.modules ⊆ Library.modules) :
    Keeps D ∅ True s (mergeImports imports) :=
  ensures_modify (advances_setImports hs fun _ hm =>
    (ImportTable.mem_merge hm).elim (fun hm => hs.imports hm) fun hm => himports hm)

/-- What a step ensures is ensured by a statement that runs it and goes on. -/
theorem Ensures.goOn {α : Type} {step : Exec α} {E : Error → State → Prop} {Q : State → Prop}
    (h : Ensures step s E fun _ t => Q t) :
    Ensures (do let _ ← step; return Flow.goOn) s E fun _ t => Q t :=
  Ensures.bind h

/-- What a step ensures holds after a statement that runs it, goes on and succeeds. -/
theorem Ensures.of_goOn {α : Type} {step : Exec α} {E : Error → State → Prop} {Q : State → Prop}
    {f : Error → Error} {flow : Flow} {t : State} (h : Ensures step s E fun _ t => Q t)
    (hrun : s.run (Exec.decorate f (do let _ ← step; return Flow.goOn)) = (.ok flow, t)) : Q t := by
  have hgoOn : Ensures (do let _ ← step; return Flow.goOn) s (fun _ _ => True) fun _ t => Q t :=
    (h.imp (fun _ _ _ => trivial) fun _ _ ht => ht).goOn
  exact (Ensures.decorate (E := fun _ _ => True) hgoOn).of_ok hrun

/-- What a discipline asks of a statement that is an assignment: the variable has a name that the
discipline owns, and may leave its cell if the statement makes it do so. -/
def MayAssign (D : Discipline) (invoke : Invoke) (st : Statement) (s : State) : Prop :=
  ∀ name expr, st.form = .assign (.var name) expr → (s.view name ≠ none → D.Owns name) ∧
    ∀ cell, s.cell? name = some cell → Leaves invoke name expr st.span s cell → D.Frees cell name

theorem mayAssign_of_isExport {st : Statement} (h : st.form.IsExport) :
    MayAssign D invoke st s := by
  intro name expr hform
  rw [hform] at h
  cases h

/-- A statement of any form changes what it is said to change, and no more when it fails. -/
theorem ensures_statement (hinvoke : invoke.Sound D) (st : Statement)
    (hallowed : ∀ form ∈ st.form.forms, D.Allows form) (hs : s.Sound D)
    (hassign : MayAssign D invoke st s) :
    Ensures (statement invoke st) s
      (fun _ t => Advances D st.form.scanned st.form.Imports s t) fun _ t =>
        Advances D st.form.writes st.form.Imports s t := by
  induction st using Statement.induction generalizing s with
  | h st ih =>
    rw [statement_eq]
    refine Ensures.decorate ?_
    cases hform : st.form with
    | function declaration =>
      rw [hform] at hallowed
      rw [formOf]
      exact (keeps_declareFunction hs hallowed).goOn
    | call call =>
      rw [formOf]
      exact (keeps_callDeclared hinvoke hs call).goOn
    | access access =>
      rw [formOf]
      exact (keeps_useField hinvoke hs access).goOn
    | declare name value =>
      rw [formOf]
      have howns := D.owns_declared name value (hallowed _ (hform ▸ mem_forms_self _))
      exact ((ensures_declare hinvoke hs howns value st.span).imp (fun _ _ ht => ht)
        fun _ _ ht => ht.1).goOn
    | assign target value =>
      cases target with
      | var name =>
        rw [formOf]
        obtain ⟨howns, hfrees⟩ := hassign name value hform
        exact ((ensures_assign hinvoke hs howns value st.span hfrees).imp (fun _ _ ht => ht)
          fun _ _ ht => ht.1).goOn
      | field map field =>
        rw [formOf]
        exact ((ensures_assignField hinvoke hs map field value st.span).imp (fun _ _ ht => ht)
          fun _ _ ht => ht.1).goOn
    | returns value =>
      rw [formOf]
      exact ensures_returnValue hinvoke hs st.scope value st.span
    | useModule module =>
      rw [formOf]
      have hmodule := D.standard _ (hallowed st.form (mem_forms_self st.form))
      rw [hform] at hmodule
      refine Ensures.bind (ensures_modify (ensures_pure ?_))
      refine advances_setImports hs fun m hm => ?_
      rcases ImportTable.mem_insert hm with hm | rfl
      · exact hs.imports hm
      · exact hmodule
    | useFile file program =>
      rw [formOf, programOf_eq]
      have hfile := D.standard _ (hallowed st.form (mem_forms_self st.form))
      rw [hform] at hfile
      have hinner : ∀ inner ∈ program.statements, ∀ t : State, t.Sound D →
          Keeps D ∅ True t (statement invoke inner) := by
        intro inner hmem t ht
        have hexport := hfile.2 inner hmem
        have hadvances := ih file program hform inner hmem (fun form hin => hallowed form (by
          rw [hform, Form.forms, Program.forms_eq]
          exact List.mem_cons_of_mem _ (mem_formsOf.mpr ⟨inner, hmem, hin⟩))) ht
            (mayAssign_of_isExport hexport)
        rw [Form.writes_of_isExport hexport, Form.scanned_of_isExport hexport] at hadvances
        exact hadvances.imp (fun _ _ h => h.mono (Set.Subset.refl _) fun _ => trivial)
          fun _ _ h => h.mono (Set.Subset.refl _) fun _ => trivial
      exact (keeps_mergeImports hs hfile.1).bind fun _ t ht =>
        (keeps_statementsOf ht.sound fun before inner after u hsplit _ hu =>
          hinner inner (by rw [hsplit]; simp) u hu.sound).decorate.goOn

/-! ## Bodies and calls -/

/-- The parameters of a call hold plain values. -/
theorem exists_plain_of_bindParams {function : String} {span : Span} {index : Nat}
    {params : List Param} {values : List Value} {bound : List Variable}
    (h : bindParams function span index params values = .ok bound) :
    ∀ v ∈ bound, ∃ param ∈ params, ∃ value, v = .plain param.name value := by
  induction params generalizing index values bound with
  | nil =>
    cases h
    exact fun v hv => absurd hv List.not_mem_nil
  | cons param params ih =>
    cases values with
    | nil =>
      cases h
      exact fun v hv => absurd hv List.not_mem_nil
    | cons value values =>
      have hrest : ∃ rest, bindParams function span (index + 1) params values = .ok rest ∧
          bound = .plain param.name value :: rest := by
        rw [bindParams] at h
        split at h
        · split at h
          · cases h
          · obtain ⟨rest, hrest, hbound⟩ := exists_of_bind_eq_ok h
            exact ⟨rest, hrest, (Except.ok.inj hbound).symm⟩
        · obtain ⟨rest, hrest, hbound⟩ := exists_of_bind_eq_ok h
          exact ⟨rest, hrest, (Except.ok.inj hbound).symm⟩
      obtain ⟨rest, hrest, rfl⟩ := hrest
      refine List.forall_mem_cons.mpr ⟨⟨param, List.mem_cons_self, value, rfl⟩, fun v hv => ?_⟩
      obtain ⟨p, hp, hv⟩ := ih hrest v hv
      exact ⟨p, List.mem_cons_of_mem _ hp, hv⟩

/-- Parameters refuse values for their types only. -/
theorem exists_type_of_bindParams {function : String} {span : Span} {index : Nat}
    {params : List Param} {values : List Value} {e : Error}
    (h : bindParams function span index params values = .error e) :
    ∃ position expected actual,
      e = .locate (.argumentType function position expected actual) span := by
  induction params generalizing index values with
  | nil => cases h
  | cons param params ih =>
    cases values with
    | nil => cases h
    | cons value values =>
      rw [bindParams] at h
      split at h
      · split at h
        · cases h
          exact ⟨_, _, _, rfl⟩
        · exact ih (eq_error_of_bind_pure h)
      · exact ih (eq_error_of_bind_pure h)

end Exec

namespace State

variable {D : Discipline} {X : Set String} {I : Prop} {s t : State}

/-- The state in which the body of a function starts to run. -/
def enter (s : State) (declaration : Declaration) (bound : List Variable) : State :=
  s.nest (.ofList bound) (s.imports.merge declaration.body.imports)

/-- All variables of the running scope have names that the discipline owns. -/
def Owned (D : Discipline) (s : State) : Prop := ∀ name, s.view name ≠ none → D.Owns name

theorem Advances.owned (h : Advances D X I s t) (hs : s.Owned D) : t.Owned D := by
  intro name hname
  by_contra howns
  exact hname (h.created name howns (by_contra fun hthere => howns (hs name hthere)))

section Enter

variable {declaration : Declaration} {bound : List Variable} {span : Span} {index : Nat}
  {values : List Value}

theorem Sound.enter (hs : s.Sound D) (hmem : declaration ∈ s.functions)
    (hbound : Exec.bindParams declaration.name span index declaration.params values = .ok bound) :
    (s.enter declaration bound).Sound D where
  log := hs.log
  vars := by
    intro v hv
    obtain ⟨param, -, value, rfl⟩ :=
      Exec.exists_plain_of_bindParams hbound v (Variables.mem_ofList hv)
    exact Variable.sound_plain _ _
  functions := hs.functions
  imports _ hm := (ImportTable.mem_merge hm).elim (fun hm => hs.imports hm) fun hm =>
    D.standard (.function declaration) (hs.functions declaration hmem _ (mem_forms_self _)) hm

theorem Sound.owned_enter (hs : s.Sound D) (hmem : declaration ∈ s.functions)
    (hbound : Exec.bindParams declaration.name span index declaration.params values = .ok bound) :
    (s.enter declaration bound).Owned D := by
  intro name hname
  obtain ⟨v, hv⟩ := Option.ne_none_iff_exists'.mp (mt view_eq_none_iff.mpr hname)
  obtain ⟨param, hparam, value, rfl⟩ :=
    Exec.exists_plain_of_bindParams hbound v (Variables.mem_ofList (Variables.mem_of_get? hv))
  rw [← Variables.name_of_get? hv]
  exact D.owns_params declaration (hs.functions declaration hmem _ (mem_forms_self _)) param hparam

/-- A scope that was left while another one ran is taken up again. -/
theorem Advances.leave (hs : s.Sound D)
    (h : Advances D Set.univ True (s.enter declaration bound) t) :
    Advances D X I s (s.resume t) where
  sound := ⟨h.sound.log, fun v hv => (hs.vars v hv).mono h.cells h.log, h.sound.functions,
    hs.imports⟩
  cells := h.cells
  log := h.log
  functions := h.functions
  imports _ := rfl
  view name _ := by
    show (s.vars.get? name).map (fun v => (v.peek t.cells, v.cell)) = (s.vars.get? name).map _
    cases hget : s.vars.get? name with
    | none => rfl
    | some v => rw [Option.map_some, Option.map_some, (hs.of_get? hget).peek_extends h.cells]
  law := h.law
  created name _ hname := by
    have hget := view_eq_none_iff.mp hname
    exact view_eq_none_iff.mpr hget

end Enter

end State

/-- The law allows for all that an assignment to a variable with an owned name can do. -/
def Discipline.Lenient (D : Discipline) : Prop :=
  ∀ name, D.Owns name → ∀ cell, D.Frees cell name

theorem Discipline.lenient_ofLoaded : Discipline.ofLoaded.Lenient := fun _ _ _ _ => trivial

theorem Discipline.Lenient.mayAssign {D : Discipline} (hlenient : D.Lenient) {s : State}
    (howned : s.Owned D) {invoke : Invoke} {st : Statement} : Exec.MayAssign D invoke st s := by
  refine fun name expr _ => ⟨howned name, fun cell hcell _ => ?_⟩
  refine hlenient name (howned name fun hname => ?_) cell
  rw [cell?_eq, hname] at hcell
  cases hcell

namespace Exec

variable {D : Discipline} {s : State} {invoke : Invoke}

/-- A statement advances the state in any case. -/
theorem keeps_statement (hinvoke : invoke.Sound D) {st : Statement}
    (hallowed : ∀ form ∈ st.form.forms, D.Allows form) (hs : s.Sound D)
    (hassign : MayAssign D invoke st s) : Keeps D Set.univ True s (statement invoke st) :=
  (ensures_statement hinvoke st hallowed hs hassign).imp
    (fun _ _ h => h.mono (Set.subset_univ _) fun _ => trivial)
    fun _ _ h => h.mono (Set.subset_univ _) fun _ => trivial

/-- So do the statements of a scope with owned names, under a lenient discipline. -/
theorem keeps_statementsOf_of_owned (hlenient : D.Lenient) (hinvoke : invoke.Sound D)
    {statements : List Statement} (hallowed : ∀ form ∈ formsOf statements, D.Allows form)
    (hs : s.Sound D) (howned : s.Owned D) :
    Keeps D Set.univ True s (statementsOf invoke statements) := by
  refine keeps_statementsOf hs fun before st after t hsplit _ ht => ?_
  exact keeps_statement hinvoke
    (fun form hform => hallowed form (mem_formsOf_of_eq_append hsplit hform)) ht.sound
    (hlenient.mayAssign (ht.owned howned))

/-- The forms in the body of a function. -/
theorem allows_body (hs : s.Sound D) {declaration : Declaration}
    (hmem : declaration ∈ s.functions) :
    ∀ form ∈ formsOf declaration.body.statements, D.Allows form := by
  intro form hform
  refine hs.functions declaration hmem form ?_
  rw [Form.forms, Declaration.forms_eq]
  exact List.mem_cons_of_mem _ hform

theorem keeps_body (hs : s.Sound D) {declaration : Declaration} {bound : List Variable}
    (hbody : Keeps D Set.univ True (s.enter declaration bound)
      (statementsOf invoke declaration.body.statements)) :
    Keeps D ∅ False s (body invoke declaration bound) := by
  refine Ensures.bind (ensures_get ?_)
  have hrun : Keeps D ∅ False s (decorate declaration.claimError
      (inScope (.ofList bound) (s.imports.merge declaration.body.imports)
        (programOf invoke declaration.body))) := by
    rw [programOf_eq]
    refine Ensures.decorate (Ensures.inScope ?_)
    exact hbody.imp (fun _ _ h => h.leave hs) fun _ _ h => h.leave hs
  refine hrun.bind fun flow t ht => ?_
  cases flow with
  | goOn => exact keeps_pure ht.sound _
  | returned value => exact keeps_pure ht.sound _

end Exec

/-- However deep calls may nest, the scope of a caller is not theirs to change. -/
theorem sound_callWithin {D : Discipline} (hlenient : D.Lenient) (levels : Nat) :
    (callWithin levels).Sound D := by
  induction levels with
  | zero => exact fun declaration values span s hs _ => Exec.keeps_refuse hs _ _
  | succ levels ih =>
    intro declaration values span s hs hmem
    rw [callWithin]
    split
    · exact Exec.keeps_refuse hs _ _
    · refine Exec.Ensures.bind (Exec.ensures_lift (fun bound hbound => ?_) fun _ _ => hs.refl)
      exact Exec.keeps_body hs (Exec.keeps_statementsOf_of_owned hlenient ih
        (Exec.allows_body hs hmem) (hs.enter hmem hbound) (hs.owned_enter hmem hbound))

/-- A program leaves a sound state behind, also when it fails. -/
theorem State.Sound.advances_execute_of_lenient {D : Discipline} (hlenient : D.Lenient)
    (howns : ∀ name, D.Owns name) {s : State} (hs : s.Sound D) {program : Program}
    (himports : program.imports.modules ⊆ Library.modules)
    (hallowed : ∀ form ∈ formsOf program.statements, D.Allows form) :
    Advances D Set.univ True s (s.execute program).2 := by
  have hrun : Exec.Keeps D Set.univ True s (do
      Exec.mergeImports program.imports
      let _ ← Exec.programOf (callWithin callLimit) program) := by
    refine ((Exec.keeps_mergeImports hs himports).mono (Set.empty_subset _) id).bind
      fun _ t ht => ?_
    rw [Exec.programOf_eq]
    exact (Exec.keeps_statementsOf_of_owned hlenient (sound_callWithin hlenient _) hallowed ht.sound
      fun name _ => howns name).bind fun _ u hu => Exec.keeps_pure hu.sound _
  exact hrun.state

theorem State.Sound.advances_execute {s : State} (hs : s.Sound .ofLoaded) {program : Program}
    (himports : program.imports.modules ⊆ Library.modules)
    (hforms : ∀ form ∈ formsOf program.statements, form.Standard) :
    Advances .ofLoaded Set.univ True s (s.execute program).2 :=
  hs.advances_execute_of_lenient Discipline.lenient_ofLoaded (fun _ => trivial) himports hforms

end Scripting
