import Scripting.Proofs.Conduct

/-!
# The conduct of statements

By itself a statement evaluates, makes cells and records, changes the variables and imports of its
scope, and declares functions. Its records answer to the name of the variable that it binds, if to
any. If a conduct allows for this (`Conduct.Permits`), then the statement follows it as soon as the
calls that it makes do and, in case that it imports a file, the statements of the file do
(`traces_statement`).
-/

namespace Scripting

open State

/-- The places that are written in a form. Those in the body of a function or in an imported file
belong to other statements. -/
def Form.spans : Form → List Span
  | .function declaration => [declaration.span]
  | .call c => c.spans
  | .access a => a.spans
  | .declare _ value | .assign _ value | .returns value => value.spans
  | .useModule _ | .useFile _ _ => []

/-- The places that are written in a statement, its own first. -/
def Statement.spans (st : Statement) : List Span := st.span :: st.form.spans

theorem Statement.span_mem_spans (st : Statement) : st.span ∈ st.spans := List.mem_cons_self

/-- The variable that a statement of the form binds. -/
def Form.bound? : Form → Option String
  | .declare name _ | .assign (.var name) _ => some name
  | _ => none

/-- The conduct allows for what the statement does by itself. -/
structure Conduct.Permits (C : Conduct) (st : Statement) : Prop extends
    C.Allows st.spans, C.AllowsWriting where
  scope : ∀ s vars, C.Moves s { s with vars }
  imports : ∀ s imports, C.Moves s { s with imports }
  cells : ∀ s cells, C.Moves s { s with cells }
  push : ∀ s record, record.aliases = [] →
    (∀ owner, record.owner = some owner → st.form.bound? = some owner) →
    C.Moves s { s with log := s.log.push record }
  addAlias : ∀ s cell name, st.form.bound? = some name →
    C.Moves s { s with log := s.log.addAlias cell name }
  function : ∀ s declaration, st.form = .function declaration →
    s.function? declaration.name = none →
    C.Moves s { s with functions := declaration :: s.functions }

/-- Reading leaves the import table alone. -/
theorem Conduct.allows_imports (spans : List Span) :
    (Conduct.ofMoves fun s t => t.imports = s.imports).Allows spans where
  refl _ := rfl
  trans _ _ _ h h' := Eq.trans h' h
  settle _ _ _ _ _ _ := rfl
  raw _ _ := trivial
  orAt _ _ _ _ := trivial

namespace Exec

/-! ## Statements -/

section Statements

variable {C : Conduct} {st : Statement} {s t : State} {invoke : Invoke} {name : String}
  (hC : C.Permits st)
include hC

theorem follows_makeCell (content : Option Value) : Follows C s (makeCell content) :=
  hC.cells s _

theorem follows_pushRecord {record : Record} (haliases : record.aliases = [])
    (howner : ∀ owner, record.owner = some owner → st.form.bound? = some owner) :
    Follows C s (pushRecord record) :=
  hC.push s record haliases howner

theorem follows_replaceVariable (v : Variable) : Follows C s (replaceVariable v) :=
  hC.scope s _

theorem follows_declareVariable (v : Variable) : Follows C s (declareVariable v) := by
  refine follows_get_bind (Ensures.bind (ensures_lift (fun vars _ => hC.scope s vars) ?_))
  intro e hdeclare
  unfold Variables.declare at hdeclare
  split at hdeclare
  · cases hdeclare
    exact ⟨hC.refl s, hC.raw _ (Error.raw_nowhere _)⟩
  · cases hdeclare

theorem follows_reference (hname : st.form.bound? = some name) {token : Token}
    (htoken : token.span ∈ st.spans) : Follows C s (reference name token) := by
  refine (follows_meaning hC.toAllows htoken).bind hC.toAllows fun meaning t _ => ?_
  cases meaning with
  | value value => exact follows_pure hC.toAllows _
  | cell cell =>
    have halias : Follows C t
        (modify fun state : State => { state with log := state.log.addAlias cell name }) :=
      hC.addAlias t cell name hname
    exact halias.bind hC.toAllows fun _ u _ => follows_pure hC.toAllows _

/-- A capture that fails is undone by a change of the scope. -/
theorem traces_capture (hname : st.form.bound? = some name)
    (hmodules : s.imports.modules ⊆ Library.modules) {expr : Expr} (hexpr : expr.spans ⊆ st.spans)
    (hcalls : CallsFollow C invoke (expr.invocations invoke s)) (cell : Cell)
    (undo : State → Variables) :
    Traces C invoke s (expr.invocations invoke s)
      (orUndo (capture invoke name cell expr) fun state => { state with vars := undo state }) := by
  have hcapture : Traces C invoke s (expr.invocations invoke s)
      (capture invoke name cell expr) := by
    refine (traces_evaluate hC.toAllows hC.toAllowsWriting hmodules hexpr hcalls).bindFollows
      hC.toAllows fun value t _ => ?_
    have hfill : Follows C t
        (modify fun state : State => { state with cells := state.cells.fill cell value }) :=
      hC.cells t _
    exact hfill.bind hC.toAllows fun _ u _ =>
      follows_pushRecord hC rfl fun owner howner => Option.some.inj howner ▸ hname
  refine Ensures.orUndo (Ensures.imp hcapture ?_ fun _ _ ht => ht)
  rintro e t ⟨⟨hst, he⟩, hends⟩
  have hundo := hC.scope t (undo t)
  refine ⟨⟨hC.trans s t _ hst hundo, he⟩, fun i hi => ?_⟩
  exact ⟨hC.trans _ t _ (hends i hi).1 hundo, (hends i hi).2⟩

theorem traces_declare {expr : Expr} (hform : st.form = .declare name expr)
    (hmodules : s.imports.modules ⊆ Library.modules)
    (hcalls : CallsFollow C invoke (st.form.invocations invoke s)) :
    Traces C invoke s (st.form.invocations invoke s) (declare invoke name expr st.span) := by
  have hname : st.form.bound? = some name := by rw [hform, Form.bound?]
  have hexpr : expr.spans ⊆ st.spans := by
    rw [Statement.spans, hform]
    exact List.subset_cons_self _ _
  rw [hform, Form.invocations] at hcalls ⊢
  refine traces_get_bind ?_
  by_cases hcontains : s.vars.contains name = true
  · rw [if_pos hcontains, if_neg (by simp [hcontains])]
    exact (follows_refuse hC.toAllows _ st.span_mem_spans).traces
  · rw [if_neg hcontains]
    by_cases hcall : expr.isCall = true
    · rw [if_pos (by simp [hcontains, hcall])] at hcalls
      rw [if_pos hcall, if_pos (by simp [hcontains, hcall])]
      refine (follows_makeCell hC none).bindTraces hC.toAllows fun cell t ht => ?_
      cases ht
      refine (follows_declareVariable hC _).bindTraces hC.toAllows fun _ u hu => ?_
      have himports : u.imports = s.imports :=
        ((ensures_declareVariable_eq _).of_ok hu).2 ▸ rfl
      exact traces_capture hC hname (himports ▸ hmodules) hexpr ((hcalls.after rfl).after hu) _ _
    · rw [if_neg hcall, if_neg (by simp [hcall])]
      refine Follows.traces ?_
      split
      · refine (follows_reference hC hname (hexpr (List.mem_singleton.mpr rfl))).bind hC.toAllows
          fun v t _ => follows_declareVariable hC v
      · refine (traces_evaluate hC.toAllows hC.toAllowsWriting hmodules hexpr ?_).follows.bind
          hC.toAllows fun value t _ => follows_declareVariable hC _
        rw [invocations_of_not_isCall hcall]
        exact fun i hi => absurd hi List.not_mem_nil

theorem traces_rebind {expr : Expr} (hform : st.form = .assign (.var name) expr)
    (hmodules : s.imports.modules ⊆ Library.modules)
    (hcalls : CallsFollow C invoke (st.form.invocations invoke s)) {previous : Variable}
    (hprevious : s.vars.get? name = some previous) :
    Traces C invoke s (st.form.invocations invoke s) (rebind invoke name previous expr) := by
  have hname : st.form.bound? = some name := by rw [hform, Form.bound?]
  have hexpr : expr.spans ⊆ st.spans := by
    rw [Statement.spans, hform]
    exact List.subset_cons_self _ _
  rw [hform, Form.invocations, Variables.contains_eq_isSome, hprevious] at hcalls ⊢
  unfold rebind
  by_cases hcall : expr.isCall = true
  · rw [if_pos (by simp [hcall])] at hcalls
    rw [if_pos hcall, if_pos (by simp [hcall])]
    refine (follows_makeCell hC none).bindTraces hC.toAllows fun cell t ht => ?_
    cases ht
    refine (follows_replaceVariable hC _).bindTraces hC.toAllows fun _ u hu => ?_
    cases hu
    refine traces_capture hC hname ?_ hexpr ((hcalls.after rfl).after rfl) _ _
    exact hmodules
  · rw [if_neg hcall, if_neg (by simp [hcall])]
    refine Follows.traces ?_
    split
    · have htoken := hexpr (List.mem_singleton.mpr rfl)
      refine (follows_ofLiteral hC.toAllows htoken).bind hC.toAllows
        fun value t _ => ?_
      refine (follows_readVariable hC.toAllows name).bind hC.toAllows fun current u _ => ?_
      split
      · exact follows_refuse hC.toAllows _ htoken
      · exact follows_assignVariable hC.toAllows hC.toAllowsWriting name value
    · exact (follows_reference hC hname (hexpr (List.mem_singleton.mpr rfl))).bind hC.toAllows
        fun v t _ => follows_replaceVariable hC v
    · refine (traces_evaluate hC.toAllows hC.toAllowsWriting hmodules hexpr ?_).follows.bind
        hC.toAllows fun value t _ =>
          follows_assignVariable hC.toAllows hC.toAllowsWriting name value
      rw [invocations_of_not_isCall hcall]
      exact fun i hi => absurd hi List.not_mem_nil

/-- An assignment takes the name away from the record of the cell that its variable was bound to. -/
theorem follows_moveRecords (hname : st.form.bound? = some name)
    (hrelease : ∀ s cell, C.Moves s { s with log := s.log.release cell name }) (previous : Cell)
    (span : Span) : Follows C s (moveRecords name previous span) := by
  refine follows_get_bind ?_
  simp only
  split
  · exact follows_pure hC.toAllows _
  · have hrelease : Follows C s
        (modify fun state : State => { state with log := state.log.release previous name }) :=
      hrelease s previous
    refine hrelease.bind hC.toAllows fun _ t _ => ?_
    split
    · refine (follows_readVariable hC.toAllows name).bind hC.toAllows fun value u _ => ?_
      refine (follows_makeCell hC _).bind hC.toAllows fun cell w _ => ?_
      refine (follows_replaceVariable hC _).bind hC.toAllows fun _ x _ => ?_
      exact follows_pushRecord hC rfl fun owner howner => Option.some.inj howner ▸ hname
    · exact follows_pure hC.toAllows _

theorem traces_assign {expr : Expr} (hform : st.form = .assign (.var name) expr)
    (hmodules : s.imports.modules ⊆ Library.modules)
    (hcalls : CallsFollow C invoke (st.form.invocations invoke s))
    (hmove : ∀ previous cell t, s.vars.get? name = some previous →
      s.run (rebind invoke name previous expr) = (.ok (), t) →
      Follows C t (moveRecords name cell st.span)) :
    Traces C invoke s (st.form.invocations invoke s) (assign invoke name expr st.span) := by
  refine traces_get_bind ?_
  cases hprevious : s.vars.get? name with
  | none =>
    rw [hform, Form.invocations, Variables.contains_eq_isSome, hprevious]
    exact (follows_refuse hC.toAllows _ st.span_mem_spans).traces
  | some previous =>
    refine (traces_rebind hC hform hmodules hcalls hprevious).bindFollows hC.toAllows
      fun _ t ht => ?_
    split
    · exact hmove previous _ t hprevious ht
    · exact follows_pure hC.toAllows _

theorem traces_assignField {map field : String} {expr : Expr}
    (hform : st.form = .assign (.field map field) expr)
    (hmodules : s.imports.modules ⊆ Library.modules)
    (hcalls : CallsFollow C invoke (st.form.invocations invoke s)) :
    Traces C invoke s (st.form.invocations invoke s)
      (assignField invoke map field expr st.span) := by
  have hexpr : expr.spans ⊆ st.spans := by
    rw [Statement.spans, hform]
    exact List.subset_cons_self _ _
  rw [hform, Form.invocations] at hcalls ⊢
  refine (follows_readVariable hC.toAllows map).bindTraces hC.toAllows fun current t ht => ?_
  have himports : t.imports = s.imports :=
    (follows_readVariable (Conduct.allows_imports st.spans) map).of_ok ht
  replace hcalls := hcalls.after ht
  cases current with
  | map fields =>
    refine (traces_evaluate hC.toAllows hC.toAllowsWriting (himports ▸ hmodules) hexpr
      hcalls).bindFollows hC.toAllows fun value u _ => ?_
    split
    · split
      · exact follows_refuse hC.toAllows _ (hexpr expr.span_mem_spans)
      · exact follows_assignVariable hC.toAllows hC.toAllowsWriting map _
    · exact follows_assignVariable hC.toAllows hC.toAllowsWriting map _
  | _ => exact (follows_refuse hC.toAllows _ st.span_mem_spans).traces

theorem follows_declareFunction {declaration : Declaration}
    (hform : st.form = .function declaration) : Follows C s (declareFunction declaration) := by
  have hspan : declaration.span ∈ st.spans := by
    rw [Statement.spans, hform]
    exact List.mem_cons_of_mem _ (List.mem_singleton.mpr rfl)
  refine follows_get_bind ?_
  split
  · exact follows_refuse hC.toAllows _ hspan
  · next hfree => exact hC.function s declaration hform (by simpa using hfree)

theorem traces_useField {access : Access} (hform : st.form = .access access)
    (hmodules : s.imports.modules ⊆ Library.modules)
    (hcalls : CallsFollow C invoke (st.form.invocations invoke s)) :
    Traces C invoke s (st.form.invocations invoke s) (useField invoke access) := by
  have haccess : access.spans ⊆ st.spans := by
    rw [Statement.spans, hform]
    exact List.subset_cons_self _ _
  rw [hform] at hcalls ⊢
  refine (traces_field hC.toAllows hC.toAllowsWriting hmodules haccess hcalls).bindFollows
    hC.toAllows fun result t _ => ?_
  split
  · exact (follows_makeCell hC _).bind hC.toAllows fun cell u _ =>
      follows_pushRecord hC rfl nofun
  · exact follows_pure hC.toAllows _

theorem traces_returnValue {expr : Expr} (hform : st.form = .returns expr)
    (hmodules : s.imports.modules ⊆ Library.modules)
    (hcalls : CallsFollow C invoke (st.form.invocations invoke s)) :
    Traces C invoke s (st.form.invocations invoke s)
      (returnValue invoke st.scope expr st.span) := by
  have hexpr : expr.spans ⊆ st.spans := by
    rw [Statement.spans, hform]
    exact List.subset_cons_self _ _
  rw [hform] at hcalls ⊢
  refine (traces_evaluate hC.toAllows hC.toAllowsWriting hmodules hexpr hcalls).bindFollows
    hC.toAllows fun value t _ => ?_
  refine (follows_makeCell hC _).bind hC.toAllows fun cell u _ => ?_
  have hpush : Follows C u
      (pushRecord { name := st.scope.getD "", cell, owner := none, span := st.span }) :=
    follows_pushRecord hC rfl nofun
  exact hpush.bind hC.toAllows fun _ w _ => follows_pure hC.toAllows _

/-- A statement follows a conduct that allows for what it does by itself, if its calls do and, in
case it imports a file, the statements of the file do. That the records are moved after an
assignment has to be allowed for separately, since this can be seen in the light of what was
assigned. -/
theorem traces_statement (hmodules : s.imports.modules ⊆ Library.modules)
    (hcalls : CallsFollow C invoke (st.form.invocations invoke s))
    (hmove : ∀ name expr previous cell t, st.form = .assign (.var name) expr →
      s.vars.get? name = some previous → s.run (rebind invoke name previous expr) = (.ok (), t) →
      Follows C t (moveRecords name cell st.span))
    (hfile : ∀ file program, st.form = .useFile file program →
      Follows C { s with imports := s.imports.merge program.imports }
        (decorate (·.inFile file.path file.source) (statementsOf invoke program.statements))) :
    Traces C invoke s (st.form.invocations invoke s) (statement invoke st) := by
  have hgoOn : ∀ {α : Type} {step : Exec α}, Traces C invoke s (st.form.invocations invoke s) step →
      Traces C invoke s (st.form.invocations invoke s) (do let _ ← step; return Flow.goOn) :=
    fun h => h.bindFollows hC.toAllows fun _ _ _ => follows_pure hC.toAllows _
  rw [statement_eq]
  refine Traces.orAt hC.toAllows ?_ st.span_mem_spans
  cases hform : st.form with
  | function declaration =>
    rw [hform] at hgoOn
    rw [formOf]
    exact hgoOn (follows_declareFunction hC hform).traces
  | call call =>
    have hcall : call.spans ⊆ st.spans := by
      rw [Statement.spans, hform]
      exact List.subset_cons_self _ _
    rw [hform] at hgoOn hcalls
    rw [formOf]
    exact hgoOn (traces_callDeclared hC.toAllows hcall hcalls)
  | access access =>
    rw [formOf, ← hform]
    exact hgoOn (traces_useField hC hform hmodules hcalls)
  | declare name value =>
    rw [formOf, ← hform]
    exact hgoOn (traces_declare hC hform hmodules hcalls)
  | assign target value =>
    cases target with
    | var name =>
      rw [formOf, ← hform]
      exact hgoOn (traces_assign hC hform hmodules hcalls fun previous cell t =>
        hmove name value previous cell t hform)
    | field map field =>
      rw [formOf, ← hform]
      exact hgoOn (traces_assignField hC hform hmodules hcalls)
  | returns value =>
    rw [formOf, ← hform]
    exact traces_returnValue hC hform hmodules hcalls
  | useModule module =>
    rw [hform] at hgoOn
    rw [formOf]
    have hinsert : Follows C s
        (modify fun state : State => { state with imports := state.imports.insert module }) :=
      hC.imports s _
    exact hgoOn hinsert.traces
  | useFile file program =>
    rw [formOf, programOf_eq]
    have hmerge : Follows C s (mergeImports program.imports) := hC.imports s _
    refine (hmerge.bind hC.toAllows fun _ t ht => ?_).traces
    cases ht
    exact (hfile file program hform).bind hC.toAllows fun _ _ _ => follows_pure hC.toAllows _

end Statements

end Exec

end Scripting
