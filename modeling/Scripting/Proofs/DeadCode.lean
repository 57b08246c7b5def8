import Scripting.Proofs.Forms
import Scripting.Proofs.Order
import Scripting.Proofs.Rewriting

/-!
# What follows a return is dead

The statements of a body run up to the first one that returns. Those behind it can be deleted, in
all functions of a program and of the files that it imports. `Program.trim` does that. It is a
rewriting of programs, and since a trimmed body does what the body does, each run of a program is
simulated by the run of the trimmed program (`State.execute_trim`).
-/

namespace Scripting

/-! ## Trimming -/

/-- Whether a statement of the form returns from the body it stands in. -/
def Form.isReturn : Form → Bool
  | .returns _ => true
  | _ => false

/-- The statements up to the first one that returns, with that one. -/
def upToReturn : List Statement → List Statement
  | [] => []
  | first :: rest => if first.form.isReturn then [first] else first :: upToReturn rest

mutual

/-- The form with all functions in it trimmed. -/
def Form.trim : Form → Form
  | .function declaration => .function declaration.trim
  | .useFile file program => .useFile file program.trim
  | .call call => .call call
  | .access access => .access access
  | .declare name value => .declare name value
  | .assign target value => .assign target value
  | .returns value => .returns value
  | .useModule module => .useModule module

/-- The statement with all functions in it trimmed. -/
def Statement.trim : Statement → Statement
  | { form, span, scope, exported } => { form := form.trim, span, scope, exported }

/-- The program with all functions in it trimmed. -/
def Program.trim : Program → Program
  | { statements, imports } => { statements := trimAll statements, imports }

/-- The function without the statements of its body that follow the first one that returns, and with
all functions in its body trimmed. It imports what it imported. -/
def Declaration.trim : Declaration → Declaration
  | { name, params, body, span, file } =>
    { name
      params
      body := { body.trim with statements := upToReturn body.trim.statements }
      span
      file }

/-- The statements with all functions in them trimmed. -/
def trimAll : List Statement → List Statement
  | [] => []
  | first :: rest => first.trim :: trimAll rest

end

theorem trimAll_eq_map (statements : List Statement) :
    trimAll statements = statements.map Statement.trim := by
  induction statements with
  | nil => rfl
  | cons first rest ih => rw [trimAll, ih, List.map_cons]

theorem Program.trim_eq (program : Program) :
    program.trim = { program with statements := program.statements.map Statement.trim } := by
  cases program
  rw [trim, trimAll_eq_map]

theorem Declaration.trim_eq (declaration : Declaration) :
    declaration.trim = { declaration with
      body := { declaration.body with
        statements := upToReturn (declaration.body.statements.map Statement.trim) } } := by
  cases declaration
  rw [trim, Program.trim_eq]

/-- Trimming is a rewriting. Nothing is excused. -/
def Rewriting.trimming : Rewriting where
  function := Declaration.trim
  statement := Statement.trim
  excuses _ := False
  function_name declaration := by rw [declaration.trim_eq]
  function_params declaration := by rw [declaration.trim_eq]
  function_span declaration := by rw [declaration.trim_eq]
  function_file declaration := by rw [declaration.trim_eq]
  function_imports declaration := by rw [declaration.trim_eq]
  statement_form st := by
    obtain ⟨form, span, scope, exported⟩ := st
    rw [Statement.trim]
    cases form with
    | useFile file program => rw [Form.trim, Form.rewrite, program.trim_eq]
    | _ => simp only [Form.trim, Form.rewrite]
  statement_span st := by
    cases st
    rw [Statement.trim]
  statement_scope st := by
    cases st
    rw [Statement.trim]

/-! ## Nothing is left behind a return -/

theorem prefix_upToReturn (statements : List Statement) : upToReturn statements <+: statements := by
  induction statements with
  | nil => exact List.prefix_rfl
  | cons first rest ih =>
    rw [upToReturn]
    split
    · exact ⟨rest, rfl⟩
    · exact List.cons_prefix_cons.mpr ⟨rfl, ih⟩

theorem eq_nil_of_upToReturn {statements before after : List Statement} {st : Statement}
    (h : upToReturn statements = before ++ st :: after) (hst : st.form.isReturn = true) :
    after = [] := by
  induction statements generalizing before with
  | nil => simp [upToReturn] at h
  | cons first rest ih =>
    rw [upToReturn] at h
    split at h
    · cases before with
      | nil => exact (List.cons.inj h).2.symm
      | cons head tail => simp at h
    · next hfirst =>
      cases before with
      | nil =>
        rw [(List.cons.inj h).1] at hfirst
        exact absurd hst hfirst
      | cons head tail => exact ih (List.cons.inj h).2

/-- Nothing follows a return in the body of the function that a statement of the form declares, if it
declares one. -/
def Form.Tidy : Form → Prop
  | .function declaration =>
    ∀ before st after, declaration.body.statements = before ++ st :: after →
      st.form.isReturn = true → after = []
  | _ => True

mutual

theorem Form.tidy_trim : (form : Form) → ∀ inner ∈ form.trim.forms, inner.Tidy
  | .function declaration => by
    intro inner hinner
    rw [Form.trim, Form.forms] at hinner
    rcases List.mem_cons.mp hinner with rfl | hinner
    · intro before st after hsplit
      rw [declaration.trim_eq] at hsplit
      exact eq_nil_of_upToReturn hsplit
    · exact declaration.tidy_trim inner hinner
  | .useFile file program => by
    intro inner hinner
    rw [Form.trim, Form.forms] at hinner
    rcases List.mem_cons.mp hinner with rfl | hinner
    · trivial
    · exact program.tidy_trim inner hinner
  | .call _ | .access _ | .declare _ _ | .assign _ _ | .returns _ | .useModule _ => by
    intro inner hinner
    rw [Form.trim, Form.forms] at hinner
    cases List.mem_singleton.mp hinner
    trivial

theorem Statement.tidy_trim : (st : Statement) → ∀ inner ∈ st.trim.forms, inner.Tidy
  | { form, .. } => by
    rw [Statement.trim, Statement.forms]
    exact form.tidy_trim

theorem Program.tidy_trim : (program : Program) → ∀ inner ∈ program.trim.forms, inner.Tidy
  | { statements, .. } => by
    rw [Program.trim, Program.forms]
    exact tidy_trimAll statements

theorem Declaration.tidy_trim : (declaration : Declaration) →
    ∀ inner ∈ declaration.trim.forms, inner.Tidy
  | { body, .. } => by
    intro inner hinner
    rw [Declaration.trim, Declaration.forms, Program.forms] at hinner
    obtain ⟨st, hst, hinner⟩ := mem_formsOf.mp hinner
    refine body.tidy_trim inner ?_
    rw [Program.forms_eq]
    exact mem_formsOf.mpr ⟨st, (prefix_upToReturn _).subset hst, hinner⟩

theorem tidy_trimAll (statements : List Statement) :
    ∀ inner ∈ formsOf (trimAll statements), inner.Tidy := by
  intro inner hinner
  cases statements with
  | nil => cases hinner
  | cons first rest =>
    rw [trimAll, formsOf] at hinner
    rcases List.mem_append.mp hinner with hinner | hinner
    · exact first.tidy_trim inner hinner
    · exact tidy_trimAll rest inner hinner

end

/-! ## Runs of trimmed programs -/

namespace Exec

variable {invoke : Invoke}

/-- A statement that returns does not go on. -/
theorem ne_goOn_of_isReturn {st : Statement} (h : st.form.isReturn = true) {s t : State} {flow : Flow}
    (hrun : s.run (statement invoke st) = (.ok flow, t)) : flow ≠ .goOn := by
  obtain ⟨value, hform⟩ : ∃ value, st.form = .returns value := by
    cases hform : st.form with
    | returns value => exact ⟨value, rfl⟩
    | _ =>
      rw [hform] at h
      cases h
  have hreturns : Ensures (statement invoke st) s (fun _ _ => True) fun flow _ => flow ≠ .goOn := by
    rw [statement_eq, hform, formOf]
    refine Ensures.decorate (Ensures.bind ?_)
    refine (ensures_run (evaluate invoke value) s).imp (fun _ _ _ => trivial) fun _ _ _ => ?_
    refine Ensures.bind (ensures_makeCell (Ensures.bind (ensures_pushRecord (ensures_pure ?_))))
    rintro ⟨⟩
  exact hreturns.of_ok hrun

theorem statementsOf_upToReturn (statements : List Statement) :
    statementsOf invoke (upToReturn statements) = statementsOf invoke statements := by
  induction statements with
  | nil => rfl
  | cons first rest ih =>
    rw [upToReturn]
    split
    · next hreturns =>
      funext s
      show s.run (statementsOf invoke [first]) = s.run (statementsOf invoke (first :: rest))
      rw [statementsOf, statementsOf]
      refine run_bind_congr fun flow t hrun => ?_
      cases flow with
      | goOn => exact absurd rfl (ne_goOn_of_isReturn hreturns hrun)
      | returned value => rfl
    · rw [statementsOf, statementsOf, ih]

end Exec

/-- The induction is on the levels that are left. -/
theorem simulated_callWithin_trimming (levels : Nat) :
    Invoke.Simulated .trimming (callWithin levels) (callWithin levels) := by
  induction levels with
  | zero => exact fun _ _ _ => Exec.simulated_refuse _ _
  | succ levels ih =>
    refine simulated_callWithin_succ fun declaration => ?_
    show Exec.Simulated .trimming _ (Exec.statementsOf _ declaration.trim.body.statements)
    rw [declaration.trim_eq, Exec.statementsOf_upToReturn]
    exact Exec.simulated_statementsOf ih declaration.body.statements

/-- The state with all its functions trimmed. -/
def State.trim (s : State) : State :=
  { s with functions := s.functions.map Declaration.trim }

theorem State.execute_trim_eq (s : State) (program : Program) :
    s.trim.execute program.trim = (s.execute program).map id State.trim := by
  have hrun : Exec.Simulated .trimming
      (do Exec.mergeImports program.imports
          let _ ← Exec.programOf (callWithin callLimit) program)
      (do Exec.mergeImports program.trim.imports
          let _ ← Exec.programOf (callWithin callLimit) program.trim) := by
    rw [program.trim_eq, Exec.programOf_eq, Exec.programOf_eq]
    refine (Exec.simulated_modify fun _ => rfl).bind fun _ => ?_
    exact (Exec.simulated_statementsOf (simulated_callWithin_trimming callLimit) _).bind
      fun _ => Exec.simulated_pure _
  refine (hrun s).resolve_left ?_
  rintro ⟨_, _, hnever⟩
  exact hnever

/-- Nothing follows a return in any function of a trimmed program, also not in those of the files
that it imports. Running the trimmed program has the same outcome, and leads to the same state up to
the bodies of functions: the same variables and results, modules in view, return log, console, and
names of functions.

This is so if the tables of the scopes are gone through in the same order both times. If the program
looks up nothing but definite names, then it is so in any two orders. -/
theorem State.execute_trim (s : State) (program : Program) :
    (∀ form ∈ program.trim.forms, form.Tidy) ∧
    s.trim.execute program.trim = ((s.execute program).1, (s.execute program).2.trim) ∧
    (s.execute program).2.trim.functions.map (·.name) =
      (s.execute program).2.functions.map (·.name) ∧
    (program.DefiniteFrom s → ∀ order,
      (s.trim.inOrder order).execute program.trim =
        ((s.execute program).1, (s.execute program).2.trim.inOrder order)) := by
  refine ⟨program.tidy_trim, s.execute_trim_eq program, ?_, fun hdefinite order => ?_⟩
  · rw [State.trim, List.map_map]
    exact List.map_congr_left fun declaration _ => Rewriting.trimming.function_name declaration
  · have hother := (s.inOrder order).execute_trim_eq program
    rw [State.execute_inOrder hdefinite] at hother
    exact hother

/-- A function with a statement behind its return, which is called on the field of a map. -/
def deadText : String :=
  "import \"IO\" import \"Math\" function f(x) \x7b IO.print(x) return x IO.print(2) \x7d " ++
  "var a = Math.constants a.X = \"one\" var r = f(X)"

theorem State.execute_trim_dead :
    ∃ program : Program, Program.ofText? deadText = some program ∧ program.DefiniteFrom {} ∧
      program.trim.forms.length < program.forms.length ∧
      (({} : State).execute program).2.console.output = #["one"] ∧
      ∀ order, (({} : State).inOrder order).execute program.trim =
        ((({} : State).execute program).1, (({} : State).execute program).2.trim.inOrder order) := by
  have hfacts : (Program.ofText? deadText).any (fun program =>
      Moment.allDefinite callLimit program.statements (State.prepare {} program) &&
      decide (program.trim.forms.length < program.forms.length) &&
      decide ((({} : State).execute program).2.console.output = #["one"])) = true := by
    decide +kernel
  obtain ⟨program, hprogram, hfacts⟩ := (Option.any_eq_true _ _).mp hfacts
  simp only [Bool.and_eq_true, decide_eq_true_eq] at hfacts
  have hdefinite : program.DefiniteFrom {} :=
    Program.definiteFrom_of_allDefinite hfacts.1.1
  exact ⟨program, hprogram, hdefinite, hfacts.1.2, hfacts.2,
    (State.execute_trim {} program).2.2.2 hdefinite⟩

/-- A program and the trimmed program, whose tables are gone through in different orders. -/
theorem State.execute_trim_ambiguous :
    ∃ program : Program, Program.ofText? ambiguousText = some program ∧
      ((({} : State).inOrder (.foremost "a")).execute program).2.console.output = #["one"] ∧
      ((({} : State).inOrder (.foremost "b")).execute program.trim).2.console.output = #["two"] := by
  have hfacts : (Program.ofText? ambiguousText).any (fun program =>
      decide (((({} : State).inOrder (.foremost "a")).execute program).2.console.output = #["one"]) &&
      decide (((({} : State).inOrder (.foremost "b")).execute program.trim).2.console.output =
        #["two"])) = true := by
    decide +kernel
  obtain ⟨program, hprogram, hfacts⟩ := (Option.any_eq_true _ _).mp hfacts
  simp only [Bool.and_eq_true, decide_eq_true_eq] at hfacts
  exact ⟨program, hprogram, hfacts⟩

end Scripting
