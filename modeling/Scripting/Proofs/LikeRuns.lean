import Scripting.Proofs.Blind
import Scripting.Proofs.Statements

/-!
# Like programs run alike

A run never looks at a place: it only puts places into errors, records and declared functions. So
like programs, run from like states, end alike. The argument follows the run: names and operands,
native functions by their requests, values, bindings, statements by the files that they import, and
calls by the levels that are left. Modules have to be blind, since native functions are given
places.
-/

namespace Scripting

variable {c : Correspondence}

namespace Exec

/-! ## Names and operands -/

section Operands

variable {token other : Token}

theorem alike_meaning (h : token.Alike c other) : Alike c Eq (meaning token) (meaning other) := by
  apply alike_get.bind
  intro s t hst
  rw [hst.meaning?_eq, h.lexeme]
  split
  · exact alike_pure rfl
  · exact alike_refuse _ h.span

theorem alike_nameValue (h : token.Alike c other) :
    Alike c Eq (nameValue token) (nameValue other) := by
  apply alike_get.bind
  intro s t hst
  rw [hst.vars, h.lexeme]
  split
  · exact (alike_readVariable _).orAt h.span
  · apply (alike_meaning h).bind
    rintro meaning _ rfl
    cases meaning with
    | value value => exact alike_pure rfl
    | cell cell =>
      apply alike_get.bind
      intro s t hst
      rw [hst.cells]
      split
      · exact alike_pure rfl
      · exact alike_refuse _ h.span

theorem alike_ofLiteral (h : token.Alike c other) :
    Outcome.Alike c Eq (Value.ofLiteral token) (Value.ofLiteral other) := by
  have hrefusal := Error.alike_locate (.expectedValue other.lexeme) h.span
  unfold Value.ofLiteral
  rw [h.kind, h.lexeme]
  dsimp only
  split
  · exact .ok rfl
  · split
    · exact .ok rfl
    · exact .error hrefusal
  · exact .ok rfl
  · exact .error hrefusal

theorem alike_operand (h : token.Alike c other) : Alike c Eq (operand token) (operand other) := by
  unfold operand
  rw [h.kind]
  split
  · exact alike_lift (alike_ofLiteral h)
  · exact alike_lift (alike_ofLiteral h)
  · exact alike_lift (alike_ofLiteral h)
  · exact alike_nameValue h
  · rw [h.lexeme]
    exact alike_refuse _ h.span

theorem alike_operands {tokens others : List Token}
    (h : List.Forall₂ (Token.Alike c) tokens others) :
    Alike c Eq (operands tokens) (operands others) := by
  induction h with
  | nil => exact alike_pure rfl
  | cons hfirst _ ih =>
    apply (alike_operand hfirst).bind
    rintro first _ rfl
    apply ih.bind
    rintro rest _ rfl
    exact alike_pure rfl

theorem alike_callback (h : token.Alike c other) :
    Alike c (Declaration.Alike c) (callback token) (callback other) := by
  apply (alike_operand h).bind
  rintro value _ rfl
  split
  · next name =>
    apply alike_get.bind
    intro s t hst
    have hfunction := hst.function? name
    generalize s.function? name = found at hfunction ⊢
    generalize t.function? name = found' at hfunction ⊢
    cases hfunction with
    | none => exact alike_refuse _ h.span
    | some hdeclaration => exact alike_pure hdeclaration
  · rw [h.lexeme]
    exact alike_refuse _ h.span

theorem alike_reference (name : String) (h : token.Alike c other) :
    Alike c Eq (reference name token) (reference name other) := by
  apply (alike_meaning h).bind
  rintro meaning _ rfl
  cases meaning with
  | value value => exact alike_pure rfl
  | cell cell =>
    apply (alike_modify _).bind
    · rintro - - -
      exact alike_pure rfl
    · exact fun s t hst => hst.withLog (ReturnLog.forall₂_addAliasTo hst.log cell name)

end Operands

end Exec

theorem Declaration.Alike.name_eq {declaration other : Declaration}
    (h : declaration.Alike c other) : declaration.name = other.name := by
  cases h with
  | mk hname => exact hname

theorem Declaration.Alike.params_eq {declaration other : Declaration}
    (h : declaration.Alike c other) : declaration.params = other.params := by
  cases h with
  | mk _ hparams => exact hparams

theorem Declaration.Alike.arity_eq {declaration other : Declaration}
    (h : declaration.Alike c other) : declaration.arity = other.arity := by
  unfold Declaration.arity
  rw [h.params_eq]

/-- Like functions run alike on the same values. -/
def Invoke.Alike (c : Correspondence) (invoke : Invoke) : Prop :=
  ∀ declaration other values span span', declaration.Alike c other → c.span span span' →
    Exec.Alike c Eq (invoke declaration values span) (invoke other values span')

namespace Exec

variable {invoke : Invoke} (hinvoke : invoke.Alike c)

/-! ## Native functions -/

theorem alike_argumentToken {site other : CallSite} (h : site.Alike c other) (index : Nat) :
    Alike c (Token.Alike c) (argumentToken site index) (argumentToken other index) := by
  have htoken := rel_getElem?_of_forall₂ h.args index
  unfold argumentToken
  generalize site.args[index]? = token at htoken ⊢
  generalize other.args[index]? = token' at htoken ⊢
  cases htoken with
  | none =>
    rw [h.function]
    exact alike_throw (Error.alike_locate _ h.span)
  | some htoken => exact alike_pure htoken

theorem alike_readLine (prompt : String) : Alike c Eq (readLine prompt) (readLine prompt) := by
  have hask : ∀ s t : State, s.Alike c t → (s.console.read prompt).1 = (t.console.read prompt).1 ∧
      State.Alike c { s with console := (s.console.read prompt).2 }
        { t with console := (t.console.read prompt).2 } := by
    intro s t hst
    rw [hst.console]
    exact ⟨rfl, hst.withConsole _⟩
  apply (alike_modifyGet hask).bind
  rintro answer _ rfl
  split
  · exact alike_pure rfl
  · exact alike_throw (Error.alike_nowhere _)

theorem alike_overview : Alike c Eq overview overview := by
  apply alike_get.bind
  intro s t hst
  have hreturns : s.log.size = t.log.size := hst.log.length_eq
  rw [hst.vars, hst.imports, hst.functions.length_eq, hreturns]
  exact alike_pure rfl

include hinvoke

/-- The induction is on the requests. -/
theorem alike_native {α : Type} {site other : CallSite} (hsite : site.Alike c other)
    {work work' : Native α} (h : work.Alike c work') :
    Alike c Eq (native invoke site work) (native invoke other work') := by
  induction h with
  | done result => exact alike_pure rfl
  | fail h => exact alike_throw h
  | argument index _ ih =>
    apply (alike_argumentToken hsite index).bind
    intro token token' htoken
    apply (alike_operand htoken).bind
    rintro value _ rfl
    exact ih value
  | callback index _ ih =>
    apply (alike_argumentToken hsite index).bind
    intro token token' htoken
    apply (alike_callback htoken).bind
    intro declaration declaration' hdeclaration
    rw [hdeclaration.name_eq, hdeclaration.arity_eq]
    exact ih _
  | invoke function values _ ih =>
    rw [native, native]
    apply alike_get.bind
    intro s t hst
    have hfunction := hst.function? function.name
    generalize s.function? function.name = found at hfunction ⊢
    generalize t.function? function.name = found' at hfunction ⊢
    cases hfunction with
    | none => exact alike_refuse _ hsite.span
    | some hdeclaration =>
      apply (hinvoke _ _ values _ _ hdeclaration hsite.span).bind
      rintro result _ rfl
      exact ih result
  | lookup name _ ih =>
    apply alike_get.bind
    intro s t hst
    rw [hst.vars]
    split
    · apply (alike_readVariable name).bind
      rintro value _ rfl
      exact ih (some value)
    · exact ih none
  | assign name value _ ih =>
    apply (alike_assignVariable name value).bind
    rintro - - -
    exact ih
  | write line _ ih =>
    apply (alike_modify _).bind
    · rintro - - -
      exact ih
    · intro s t hst
      rw [hst.console]
      exact hst.withConsole _
  | read prompt _ ih =>
    apply (alike_readLine prompt).bind
    rintro line _ rfl
    exact ih line
  | inspect _ ih =>
    apply alike_overview.bind
    rintro overview _ rfl
    exact ih overview

theorem alike_callNative {function : NativeFunction} (hblind : Native.Blind function.body)
    (module : String) {args args' : List Token} (hargs : List.Forall₂ (Token.Alike c) args args')
    {span span' : Span} (hspan : c.span span span') :
    Alike c Eq (callNative invoke module function args span)
      (callNative invoke module function args' span') := by
  unfold callNative
  rw [hargs.length_eq]
  split
  · have hsite : CallSite.Alike c ⟨function.name, args, span⟩ ⟨function.name, args', span'⟩ :=
      ⟨rfl, hargs, hspan⟩
    exact (alike_native hinvoke hsite (hblind c _ _ hsite)).orAt hspan
  · exact alike_refuse _ hspan

/-! ## Values -/

theorem alike_moduleField {module : Module} (hblind : module.Blind) {access other : Access}
    (h : access.Alike c other) :
    Alike c Eq (moduleField invoke module access) (moduleField invoke module other) := by
  obtain ⟨name, field, args, span⟩ := access
  obtain ⟨name', field', args', span'⟩ := other
  obtain ⟨hname, hfield, hargs, hspan⟩ := h
  simp only at hname hfield hargs hspan
  subst hname hfield
  unfold moduleField
  cases hitem : module.export? field with
  | none => exact alike_refuse _ hspan
  | some item =>
    cases item with
    | field value =>
      cases hargs with
      | none => exact alike_pure rfl
      | some hargs => exact alike_refuse _ hspan
    | function function =>
      cases hargs with
      | none => exact alike_pure rfl
      | some hargs =>
        have hmem := Module.mem_exports_of_export? hitem
        exact alike_callNative hinvoke (hblind field function hmem) _ hargs hspan

omit hinvoke in
theorem alike_mapField {access other : Access} (h : access.Alike c other) :
    Alike c Eq (mapField access) (mapField other) := by
  have hcalled : access.args.isSome = other.args.isSome := by
    have hargs := h.args
    generalize access.args = args at hargs ⊢
    generalize other.args = args' at hargs ⊢
    cases hargs <;> rfl
  unfold mapField
  rw [hcalled, h.module, h.field]
  split
  · exact alike_refuse _ h.span
  · apply (alike_readVariable _).bind
    rintro value _ rfl
    split
    · split
      · exact alike_pure rfl
      · exact alike_refuse _ h.span
    · exact alike_refuse _ h.span

variable (hblind : ∀ module, c.module module → module.Blind)

include hblind

theorem alike_field {access other : Access} (h : access.Alike c other) :
    Alike c Eq (field invoke access) (field invoke other) := by
  apply alike_get.bind
  intro s t hst
  rw [← hst.imports, hst.vars, ← h.module]
  split
  · next module hmodule =>
    have hmem := hst.modules module (ImportTable.mem_of_get? hmodule)
    exact alike_moduleField hinvoke (hblind module hmem) h
  · split
    · exact alike_mapField h
    · exact alike_refuse _ h.span

omit hblind in
theorem alike_callDeclared {call other : Call} (h : call.Alike c other) :
    Alike c Eq (callDeclared invoke call) (callDeclared invoke other) := by
  apply alike_get.bind
  intro s t hst
  have hfunction := hst.function? call.name
  rw [h.args.length_eq, ← h.name]
  generalize s.function? call.name = found at hfunction ⊢
  generalize t.function? call.name = found' at hfunction ⊢
  cases hfunction with
  | none => exact alike_refuse _ h.span
  | some hdeclaration =>
    simp only [hdeclaration.arity_eq]
    split
    · exact alike_refuse _ h.span
    · apply (alike_operands h.args).bind
      rintro values _ rfl
      exact hinvoke _ _ values _ _ hdeclaration h.span

omit hinvoke hblind in
/-- Like values are called the same, are calls alike, and stand at corresponding places. -/
theorem label_eq_of_alike {value other : Expr} (h : value.Alike c other) :
    label value = label other ∧ value.isCall = other.isCall ∧ c.span value.span other.span := by
  cases h with
  | literal h | reference h => exact ⟨h.lexeme, rfl, h.span⟩
  | call h => exact ⟨h.name, rfl, h.span⟩
  | @access access other h =>
    refine ⟨?_, ?_, h.span⟩
    · simp only [label, Access.qualifiedName, h.module, h.field]
    · have hargs := h.args
      simp only [Expr.isCall]
      generalize access.args = args at hargs ⊢
      generalize other.args = args' at hargs ⊢
      cases hargs <;> rfl

theorem alike_evaluate? {value other : Expr} (h : value.Alike c other) :
    Alike c Eq (evaluate? invoke value) (evaluate? invoke other) := by
  cases h with
  | literal h | reference h => exact (alike_operand h).map fun _ _ heq => congrArg some heq
  | call h => exact alike_callDeclared hinvoke h
  | access h => exact alike_field hinvoke hblind h

theorem alike_evaluate {value other : Expr} (h : value.Alike c other) :
    Alike c Eq (evaluate invoke value) (evaluate invoke other) := by
  obtain ⟨hlabel, -, hspan⟩ := label_eq_of_alike h
  apply (alike_evaluate? hinvoke hblind h).bind
  rintro result _ rfl
  cases result with
  | some value => exact alike_pure rfl
  | none =>
    simp only [hlabel]
    exact alike_refuse _ hspan

/-! ## Bindings -/

theorem alike_capture (owner : String) (cell : Cell) {value other : Expr}
    (h : value.Alike c other) :
    Alike c Eq (capture invoke owner cell value) (capture invoke owner cell other) := by
  obtain ⟨hlabel, -, hspan⟩ := label_eq_of_alike h
  apply (alike_evaluate hinvoke hblind h).bind
  rintro result _ rfl
  apply (alike_modify _).bind
  · rintro - - -
    exact alike_pushRecord ⟨hlabel, rfl, rfl, rfl, hspan⟩
  · intro s t hst
    rw [hst.cells]
    exact hst.withCells _

theorem alike_declare (name : String) {value other : Expr} (h : value.Alike c other)
    {span span' : Span} (hspan : c.span span span') :
    Alike c Eq (declare invoke name value span) (declare invoke name other span') := by
  obtain ⟨-, hcall, -⟩ := label_eq_of_alike h
  apply alike_get.bind
  intro s t hst
  rw [hst.vars, hcall]
  split
  · exact alike_refuse _ hspan
  · split
    · apply (alike_makeCell none).bind
      rintro cell _ rfl
      apply (alike_declareVariable _).bind
      rintro - - -
      apply (alike_capture hinvoke hblind name cell h).orUndo
      intro s t hst
      rw [hst.vars]
      exact hst.withVars _
    · have hplain : Alike c Eq (evaluate invoke value >>= fun v => declareVariable (.plain name v))
          (evaluate invoke other >>= fun v => declareVariable (.plain name v)) := by
        apply (alike_evaluate hinvoke hblind h).bind
        rintro result _ rfl
        exact alike_declareVariable _
      cases h with
      | literal | call | access => exact hplain
      | reference h =>
        apply (alike_reference name h).bind
        rintro v _ rfl
        exact alike_declareVariable v

theorem alike_rebind (name : String) (previous : Variable) {value other : Expr}
    (h : value.Alike c other) :
    Alike c Eq (rebind invoke name previous value) (rebind invoke name previous other) := by
  obtain ⟨-, hcall, -⟩ := label_eq_of_alike h
  have hplain : Alike c Eq (evaluate invoke value >>= assignVariable name)
      (evaluate invoke other >>= assignVariable name) := by
    apply (alike_evaluate hinvoke hblind h).bind
    rintro result _ rfl
    exact alike_assignVariable name result
  unfold rebind
  rw [hcall]
  split
  · apply (alike_makeCell none).bind
    rintro cell _ rfl
    apply (alike_replaceVariable _).bind
    rintro - - -
    apply (alike_capture hinvoke hblind name cell h).orUndo
    intro s t hst
    rw [hst.vars]
    exact hst.withVars _
  · cases h with
    | literal h =>
      apply (alike_lift (alike_ofLiteral h)).bind
      rintro result _ rfl
      apply (alike_readVariable name).bind
      rintro current _ rfl
      split
      · exact alike_refuse _ h.span
      · exact alike_assignVariable name result
    | reference h =>
      apply (alike_reference name h).bind
      rintro v _ rfl
      exact alike_replaceVariable v
    | call | access => exact hplain

omit hinvoke hblind in
theorem alike_moveRecords (name : String) (previous : Cell) {span span' : Span}
    (hspan : c.span span span') :
    Alike c Eq (moveRecords name previous span) (moveRecords name previous span') := by
  apply alike_get.bind
  intro s t hst
  have hbinds : s.log.binds previous name = t.log.binds previous name :=
    ReturnLog.binds_eq_of_forall₂ hst.log previous name
  simp only [hst.vars, hbinds]
  split
  · exact alike_pure rfl
  · apply (alike_modify _).bind
    · rintro - - -
      split
      · apply (alike_readVariable name).bind
        rintro value _ rfl
        apply (alike_makeCell _).bind
        rintro cell _ rfl
        apply (alike_replaceVariable _).bind
        rintro - - -
        exact alike_pushRecord ⟨rfl, rfl, rfl, rfl, hspan⟩
      · exact alike_pure rfl
    · exact fun s t hst => hst.withLog (ReturnLog.forall₂_release hst.log previous name)

theorem alike_assign (name : String) {value other : Expr} (h : value.Alike c other)
    {span span' : Span} (hspan : c.span span span') :
    Alike c Eq (assign invoke name value span) (assign invoke name other span') := by
  apply alike_get.bind
  intro s t hst
  rw [hst.vars]
  split
  · exact alike_refuse _ hspan
  · next previous _ =>
    apply (alike_rebind hinvoke hblind name previous h).bind
    rintro - - -
    split
    · next cell _ => exact alike_moveRecords name cell hspan
    · exact alike_pure rfl

theorem alike_assignField (map field : String) {value other : Expr} (h : value.Alike c other)
    {span span' : Span} (hspan : c.span span span') :
    Alike c Eq (assignField invoke map field value span)
      (assignField invoke map field other span') := by
  obtain ⟨-, -, hplace⟩ := label_eq_of_alike h
  apply (alike_readVariable map).bind
  rintro current _ rfl
  split
  · apply (alike_evaluate hinvoke hblind h).bind
    rintro result _ rfl
    split
    · split
      · exact alike_refuse _ hplace
      · exact alike_assignVariable _ _
    · exact alike_assignVariable _ _
  · exact alike_refuse _ hspan

/-! ## Statements -/

omit hinvoke hblind in
theorem alike_declareFunction {declaration other : Declaration} (h : declaration.Alike c other) :
    Alike c Eq (declareFunction declaration) (declareFunction other) := by
  have hspan : c.span declaration.span other.span := by
    cases h with
    | mk _ _ _ hspan => exact hspan
  apply alike_get.bind
  intro s t hst
  have hfunction := hst.function? other.name
  rw [h.name_eq]
  generalize s.function? other.name = found at hfunction ⊢
  generalize t.function? other.name = found' at hfunction ⊢
  cases hfunction with
  | none => exact alike_modify fun s t hst => hst.addFunction h
  | some _ => exact alike_refuse _ hspan

theorem alike_useField {access other : Access} (h : access.Alike c other) :
    Alike c Eq (useField invoke access) (useField invoke other) := by
  have hname : access.qualifiedName = other.qualifiedName := by
    unfold Access.qualifiedName
    rw [h.module, h.field]
  apply (alike_field hinvoke hblind h).bind
  rintro result _ rfl
  have hargs := h.args
  generalize access.args = args at hargs ⊢
  generalize other.args = args' at hargs ⊢
  cases result with
  | none => exact alike_pure rfl
  | some value =>
    cases hargs with
    | none => exact alike_pure rfl
    | some _ =>
      apply (alike_makeCell _).bind
      rintro cell _ rfl
      exact alike_pushRecord ⟨hname, rfl, rfl, rfl, h.span⟩

theorem alike_returnValue (scope : Option String) {value other : Expr} (h : value.Alike c other)
    {span span' : Span} (hspan : c.span span span') :
    Alike c Eq (returnValue invoke scope value span) (returnValue invoke scope other span') := by
  apply (alike_evaluate hinvoke hblind h).bind
  rintro result _ rfl
  apply (alike_makeCell _).bind
  rintro cell _ rfl
  have hrecord : Record.Alike c ⟨scope.getD "", cell, none, [], span⟩
      ⟨scope.getD "", cell, none, [], span'⟩ := ⟨rfl, rfl, rfl, rfl, hspan⟩
  apply (alike_pushRecord hrecord).bind
  rintro - - -
  exact alike_pure rfl

omit hinvoke hblind in
theorem alike_mergeImports {imports : ImportTable}
    (h : ∀ module ∈ imports.modules, c.module module) :
    Alike c Eq (mergeImports imports) (mergeImports imports) := by
  apply alike_modify
  intro s t hst
  rw [← hst.imports]
  apply hst.withImports
  intro module hmodule
  exact (ImportTable.mem_merge hmodule).elim (hst.modules module) (h module)

omit hinvoke hblind in
/-- A step whose result does not matter, before going on. -/
theorem Alike.goOn {α : Type} {step other : Exec α} (h : Alike c Eq step other) :
    Alike c Eq (step >>= fun _ => pure Flow.goOn) (other >>= fun _ => pure Flow.goOn) :=
  h.bind fun _ _ _ => alike_pure rfl

omit hinvoke hblind in
theorem alike_statementsOf_of_forall {statements others : List Statement}
    (h : List.Forall₂ (fun st st' => Alike c Eq (statement invoke st) (statement invoke st'))
      statements others) :
    Alike c Eq (statementsOf invoke statements) (statementsOf invoke others) := by
  induction h with
  | nil =>
    rw [statementsOf]
    exact alike_pure rfl
  | cons hfirst _ ih =>
    rw [statementsOf, statementsOf]
    apply hfirst.bind
    rintro flow _ rfl
    cases flow with
    | goOn => exact ih
    | returned value => exact alike_pure rfl

/-- The induction is on the files that the statement imports. -/
theorem alike_statement {st other : Statement} (h : st.Alike c other) :
    Alike c Eq (statement invoke st) (statement invoke other) := by
  induction st using Statement.induction generalizing other with
  | h st ih =>
    rw [statement_eq, statement_eq]
    cases h with
    | mk hform hspan hscope hexported =>
      apply Alike.orAt _ hspan
      rw [← hscope]
      generalize hst : st.form = form at hform ⊢
      generalize other.form = form' at hform ⊢
      cases hform with
      | function h =>
        rw [formOf, formOf]
        exact (alike_declareFunction h).goOn
      | call h =>
        rw [formOf, formOf]
        exact (alike_callDeclared hinvoke h).goOn
      | access h =>
        rw [formOf, formOf]
        exact (alike_useField hinvoke hblind h).goOn
      | @declare name _ _ h =>
        rw [formOf, formOf]
        exact (alike_declare hinvoke hblind name h hspan).goOn
      | @assign target _ _ h =>
        cases target with
        | var name =>
          rw [formOf, formOf]
          exact (alike_assign hinvoke hblind name h hspan).goOn
        | field map field =>
          rw [formOf, formOf]
          exact (alike_assignField hinvoke hblind map field h hspan).goOn
      | returns h =>
        rw [formOf, formOf]
        exact alike_returnValue hinvoke hblind st.scope h hspan
      | @useModule module h =>
        rw [formOf]
        apply Alike.goOn
        apply alike_modify
        intro s t hst
        rw [← hst.imports]
        apply hst.withImports
        intro m hm
        rcases ImportTable.mem_insert hm with hm | rfl
        · exact hst.modules m hm
        · exact h
      | @useFile file program program' h =>
        rw [formOf, formOf]
        cases h with
        | mk hstatements himports hmodules =>
          rw [← himports]
          apply (alike_mergeImports hmodules).bind
          rintro - - -
          apply Alike.goOn
          apply Alike.decorate _ fun _ _ he => he.inFile file.path file.source
          rw [programOf_eq, programOf_eq]
          apply alike_statementsOf_of_forall
          have hboth := (List.forall₂_and_left (p := (· ∈ program.statements)) _ _).mpr
            ⟨fun _ hinner => hinner, hstatements⟩
          exact hboth.imp fun inner _ h => ih file program hst inner h.1 h.2

theorem alike_statementsOf {statements others : List Statement}
    (h : List.Forall₂ (Statement.Alike c) statements others) :
    Alike c Eq (statementsOf invoke statements) (statementsOf invoke others) :=
  alike_statementsOf_of_forall (h.imp fun _ _ => alike_statement hinvoke hblind)

/-! ## Bodies -/

omit hinvoke hblind in
theorem alike_bindParams (function : String) {span span' : Span} (hspan : c.span span span')
    (index : Nat) (params : List Param) (values : List Value) :
    Outcome.Alike c Eq (bindParams function span index params values)
      (bindParams function span' index params values) := by
  induction params generalizing index values with
  | nil => exact .ok rfl
  | cons param params ih =>
    cases values with
    | nil => exact .ok rfl
    | cons value values =>
      have hrest : Outcome.Alike c Eq
          (do return .plain param.name value ::
            (← bindParams function span (index + 1) params values))
          (do return .plain param.name value ::
            (← bindParams function span' (index + 1) params values)) := by
        specialize ih (index + 1) values
        generalize bindParams function span (index + 1) params values = bound at ih ⊢
        generalize bindParams function span' (index + 1) params values = bound' at ih ⊢
        cases ih with
        | ok h => exact .ok (congrArg _ h)
        | error h => exact .error h
      unfold bindParams
      split
      · split
        · exact .error (Error.alike_locate _ hspan)
        · exact hrest
      · exact hrest

theorem alike_body {declaration other : Declaration} (h : declaration.Alike c other)
    (bound : List Variable) :
    Alike c Eq (body invoke declaration bound) (body invoke other bound) := by
  cases h with
  | mk hname hparams hbody hspan hfile =>
    cases hbody with
    | mk hstatements himports hmodules =>
      apply alike_get.bind
      intro s t hst
      rw [← hst.imports, ← himports, programOf_eq, programOf_eq]
      have hclaim : ∀ e e' : Error, e.Alike c e' →
          (declaration.claimError e).Alike c (other.claimError e') := by
        intro e e' he
        unfold Declaration.claimError
        rw [hfile]
        split
        · exact he.inFile _ _
        · exact he
      have hscope : ∀ module ∈ (s.imports.merge declaration.body.imports).modules,
          c.module module := fun module hmodule =>
        (ImportTable.mem_merge hmodule).elim (hst.modules module) (hmodules module)
      apply (((alike_statementsOf hinvoke hblind hstatements).inScope hscope).decorate hclaim).bind
      rintro flow _ rfl
      cases flow with
      | returned value => exact alike_pure rfl
      | goOn => exact alike_pure rfl

end Exec

/-- The induction is on the levels that are left. -/
theorem alike_callWithin (hblind : ∀ module, c.module module → module.Blind) (levels : Nat) :
    Invoke.Alike c (callWithin levels) := by
  induction levels with
  | zero =>
    intro declaration other values span span' h hspan
    exact Exec.alike_refuse _ hspan
  | succ levels ih =>
    intro declaration other values span span' h hspan
    unfold callWithin
    rw [h.arity_eq, h.name_eq, h.params_eq]
    split
    · exact Exec.alike_refuse _ hspan
    · apply (Exec.alike_lift (Exec.alike_bindParams other.name hspan 0 other.params values)).bind
      rintro bound _ rfl
      exact Exec.alike_body ih hblind h bound

/-- Like programs run alike, from like states. -/
theorem State.Alike.execute (hblind : ∀ module, c.module module → module.Blind) {s t : State}
    (hst : s.Alike c t) {program other : Program} (h : program.Alike c other) :
    Outcome.Alike c Eq (s.execute program).1 (t.execute other).1 ∧
      (s.execute program).2.Alike c (t.execute other).2 := by
  cases h with
  | mk hstatements himports hmodules =>
    unfold State.execute
    rw [← himports]
    refine ((Exec.alike_mergeImports hmodules).bind fun _ _ _ => ?_) s t hst
    rw [Exec.programOf_eq, Exec.programOf_eq]
    exact (Exec.alike_statementsOf (alike_callWithin hblind callLimit) hblind hstatements).bind
      fun _ _ _ => Exec.alike_pure rfl

end Scripting
