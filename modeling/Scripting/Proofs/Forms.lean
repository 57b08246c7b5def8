import Scripting.Proofs.ImportTables
import Scripting.Session

/-!
# What a loaded program holds

A program holds forms at several levels: its own statements, the statements of the files that it
imports, and the statements of function bodies. `Program.forms` lists them all, so that a property of
whole programs is a property of each form. Two things are true of every form of a program that was
loaded with the standard library: the modules it brings into view are modules of the library, and an
imported file contributes nothing but exports.
-/

namespace Scripting

/-! ## All forms of a program -/

mutual

/-- A form and all forms inside it. -/
def Form.forms : Form → List Form
  | .function declaration => .function declaration :: declaration.forms
  | .useFile file program => .useFile file program :: program.forms
  | .call call => [.call call]
  | .access access => [.access access]
  | .declare name value => [.declare name value]
  | .assign target value => [.assign target value]
  | .returns value => [.returns value]
  | .useModule module => [.useModule module]

/-- All forms of a statement. -/
def Statement.forms : Statement → List Form
  | { form, .. } => form.forms

/-- All forms of a program. -/
def Program.forms : Program → List Form
  | { statements, .. } => formsOf statements

/-- All forms in the body of a function. -/
def Declaration.forms : Declaration → List Form
  | { body, .. } => body.forms

/-- All forms of a list of statements. -/
def formsOf : List Statement → List Form
  | [] => []
  | first :: rest => first.forms ++ formsOf rest

end

@[simp] theorem Statement.forms_eq (st : Statement) : st.forms = st.form.forms := by
  cases st
  rw [Statement.forms]

@[simp] theorem Program.forms_eq (program : Program) :
    program.forms = formsOf program.statements := by
  cases program
  rw [Program.forms]

@[simp] theorem Declaration.forms_eq (declaration : Declaration) :
    declaration.forms = formsOf declaration.body.statements := by
  cases declaration
  rw [Declaration.forms, Program.forms_eq]

theorem mem_formsOf {form : Form} {statements : List Statement} :
    form ∈ formsOf statements ↔ ∃ st ∈ statements, form ∈ st.form.forms := by
  induction statements with
  | nil => simp [formsOf]
  | cons first rest ih => simp [formsOf, ih]

theorem mem_forms_self (form : Form) : form ∈ form.forms := by
  cases form <;> simp [Form.forms]

theorem mem_formsOf_of_eq_append {form : Form} {statements before after : List Statement}
    {st : Statement} (hsplit : statements = before ++ st :: after) (h : form ∈ st.form.forms) :
    form ∈ formsOf statements :=
  mem_formsOf.mpr ⟨st, by rw [hsplit]; simp, h⟩

namespace Form

/-- Whether a statement of the form can be exported. -/
def IsExport : Form → Prop
  | .function _ | .useModule _ | .useFile _ _ => True
  | _ => False

/-- The form brings in modules of the standard library only, and exports only from files. -/
def Standard : Form → Prop
  | .function declaration => declaration.body.imports.modules ⊆ Library.modules
  | .useModule module => module ∈ Library.modules
  | .useFile _ program =>
    program.imports.modules ⊆ Library.modules ∧ ∀ st ∈ program.statements, st.form.IsExport
  | _ => True

end Form

namespace Program

/-- Some loader that offers the standard library reads the program from some tokens. -/
def Loaded (program : Program) : Prop :=
  ∃ (loader : Loader) (tokens : List Token),
    loader.registry = Library.standard ∧ loader.ofTokens tokens = .ok program

end Program

theorem Library.mem_modules_of_resolve? {name : String} {m : Module}
    (h : Library.standard.resolve? name = some m) : m ∈ Library.modules := by
  have hregister : ∀ (modules : List Module) (registry : Registry),
      (modules.foldl Registry.register registry).resolve? name = some m →
        registry.resolve? name = some m ∨ m ∈ modules := by
    intro modules
    induction modules with
    | nil => exact fun registry h => .inl h
    | cons module modules ih =>
      intro registry h
      rcases ih _ h with h | h
      · simp only [Registry.register] at h
        split at h
        · exact .inr (Option.some.inj h ▸ List.mem_cons_self)
        · exact .inl h
      · exact .inr (List.mem_cons_of_mem _ h)
  exact (hregister Library.modules {} h).resolve_left nofun

/-! ## The import table of a program

The parser adds to the table as it reads. At the end, the table is the one that the statements give
by themselves. -/

namespace Program

/-- The program of a list of statements, which imports the modules that the statements name. -/
def ofStatements (statements : List Statement) : Program :=
  { statements
    imports := (statements.filterMap (·.form.module?)).foldl ImportTable.insert {} }

namespace Parser

/-- Statements up to the end of the tokens, at most `count` of them. -/
def statements (one : Parser Statement) : (count : Nat) → Parser (List Statement)
  | 0 => return []
  | count + 1 => do
    if (← get).rest.isEmpty then
      return []
    else
      let first ← one
      let rest ← statements one count
      return first :: rest

/-- All statements of a list of tokens. -/
def all (one : Parser Statement) (tokens : List Token) : Except Error (List Statement) :=
  (statements one tokens.length).run' { previous := {}, rest := tokens }

theorem programFrom_eq (one : Parser Statement) (imports : ImportTable) (count : Nat) :
    programFrom one imports count = do
      let list ← statements one count
      return ⟨list, (list.filterMap (·.form.module?)).foldl ImportTable.insert imports⟩ := by
  induction count generalizing imports with
  | zero => rw [programFrom, statements, pure_bind]; rfl
  | succ count ih =>
    rw [programFrom, statements, bind_assoc]
    refine bind_congr fun cursor => ?_
    split
    · rw [pure_bind]; rfl
    · simp only [ih, bind_assoc, pure_bind]
      refine bind_congr fun first => bind_congr fun rest => ?_
      cases hmodule : first.form.module? <;> simp [hmodule]

theorem program_eq (one : Parser Statement) (tokens : List Token) :
    program one tokens = do return ofStatements (← all one tokens) := by
  rw [program, programFrom_eq, all]
  unfold StateT.run'
  rw [bind_map_left]
  show Prod.fst <$> (statements one tokens.length _ >>= _) = (statements one tokens.length _ >>= _)
  cases statements one tokens.length { previous := {}, rest := tokens } <;> rfl

theorem body_eq (resolve : Resolver) (name : String) (tokens : List Token) :
    body resolve name tokens = do
      return ofStatements (← all (statement resolve nestedFunction)
        (tokens.map fun token => { token with scope := some name })) :=
  program_eq _ _

end Parser

theorem ofTokens_eq (resolve : Resolver) (file : Option SourceFile) (tokens : List Token) :
    ofTokens resolve file tokens = do
      return ofStatements
        (← Parser.all (Parser.statement resolve (Parser.functionStatement resolve file)) tokens) :=
  Parser.program_eq _ _

end Program

/-! ## What reading a program yields -/

section Except

variable {ε ε' α β : Type}

theorem exists_of_bind_eq_ok {x : Except ε α} {f : α → Except ε β} {b : β}
    (h : x >>= f = .ok b) : ∃ a, x = .ok a ∧ f a = .ok b := by
  cases x with
  | error e => cases h
  | ok a => exact ⟨a, rfl, h⟩

theorem eq_error_of_bind_pure {x : Except ε α} {f : α → β} {e : ε}
    (h : (x >>= fun a => pure (f a)) = .error e) : x = .error e := by
  cases x with
  | error e' => exact congrArg Except.error (Except.error.inj h)
  | ok a => cases h

theorem eq_ok_of_mapError {x : Except ε α} {f : ε → ε'} {a : α} (h : x.mapError f = .ok a) :
    x = .ok a := by
  cases x with
  | error e => cases h
  | ok b => cases h; rfl

theorem exists_of_isOk {x : Except ε α} (h : x.isOk = true) : ∃ a, x = .ok a := by
  cases x with
  | error e => cases h
  | ok a => exact ⟨a, rfl⟩

theorem eq_ok_of_toOption {x : Except ε α} {a : α} (h : x.toOption = some a) : x = .ok a := by
  cases x with
  | error e => cases h
  | ok b => cases h; rfl

theorem exists_of_mapError_eq_error {x : Except ε α} {f : ε → ε'} {e : ε'}
    (h : x.mapError f = .error e) : ∃ e', x = .error e' ∧ f e' = e := by
  cases x with
  | error e' => exact ⟨e', rfl, Except.error.inj h⟩
  | ok a => cases h

end Except

namespace Program.Parser

variable {α β : Type}

/-- Every result that the parser gives has the property. -/
def Yields (parser : Parser α) (Q : α → Prop) : Prop :=
  ∀ cursor a cursor', parser cursor = .ok (a, cursor') → Q a

variable {Q : α → Prop} {parser : Parser α}

theorem yields_true (parser : Parser α) : Yields parser fun _ => True := fun _ _ _ _ => trivial

theorem yields_pure {a : α} (h : Q a) : Yields (pure a) Q := by
  intro cursor b cursor' hrun
  cases hrun
  exact h

theorem yields_throw (error : Error) : Yields (throw error : Parser α) Q := by
  intro cursor a cursor' hrun
  cases hrun

theorem yields_refuse (cause : Cause) (span : Span) : Yields (refuse cause span : Parser α) Q :=
  yields_throw _

theorem yields_lift {x : Except Error α} (h : ∀ a, x = .ok a → Q a) :
    Yields (liftM x : Parser α) Q := by
  intro cursor a cursor' hrun
  cases x with
  | ok b => cases hrun; exact h a rfl
  | error e => cases hrun

theorem Yields.bind {P : α → Prop} {next : α → Parser β} {Q : β → Prop} (h : Yields parser P)
    (hnext : ∀ a, P a → Yields (next a) Q) : Yields (parser >>= next) Q := by
  intro cursor b cursor' hrun
  obtain ⟨pair, hparser, hrun⟩ := exists_of_bind_eq_ok hrun
  exact hnext pair.1 (h cursor pair.1 pair.2 hparser) pair.2 b cursor' hrun

/-- When the first result does not matter. -/
theorem yields_bind {first : Parser α} {next : α → Parser β} {Q : β → Prop}
    (h : ∀ a, Yields (next a) Q) : Yields (first >>= next) Q :=
  (yields_true first).bind fun a _ => h a

theorem yields_refuseEnd (cause : Cause) : Yields (refuseEnd cause : Parser α) Q :=
  yields_bind fun _ => yields_refuse _ _

/-! ## Statements -/

/-- All forms of the statement are standard, and it is exported only if it can be. -/
def Stocked (st : Statement) : Prop :=
  (∀ form ∈ st.form.forms, form.Standard) ∧ (st.exported = true → st.form.IsExport)

/-- Whatever is imported can be exported again, and is standard. -/
def ResolvesStandard (resolve : Resolver) : Prop :=
  ∀ target form, resolve target = .ok form → (∀ f ∈ form.forms, f.Standard) ∧ form.IsExport

/-- A statement that is not exported and holds no other forms. -/
theorem stocked_of_plain {token : Token} {form : Form} (hforms : form.forms = [form])
    (hstandard : form.Standard) : Stocked (statementAt token form false) := by
  refine ⟨?_, fun h => by cases h⟩
  intro f hf
  rw [statementAt, hforms, List.mem_singleton] at hf
  exact hf ▸ hstandard

variable {resolve : Resolver}

theorem yields_importStatement (hresolve : ResolvesStandard resolve) (exported : Bool) :
    Yields (importStatement resolve exported) Stocked := by
  refine yields_bind fun keyword => yields_bind fun target => ?_
  split
  · exact yields_refuse _ _
  · refine (yields_lift fun form h => hresolve target form h).bind fun form h => ?_
    exact yields_pure ⟨h.1, fun _ => h.2⟩

theorem yields_exportStatement (hresolve : ResolvesStandard resolve)
    {function : Bool → Parser Statement} (hfunction : ∀ exported, Yields (function exported) Stocked) :
    Yields (exportStatement resolve function) Stocked := by
  refine yields_bind fun keyword => yields_bind fun token? => ?_
  split
  · exact yields_refuse _ _
  · split
    · exact yields_importStatement hresolve true
    · exact hfunction true
    · exact yields_refuse _ _

theorem yields_declareStatement : Yields declareStatement Stocked :=
  yields_bind fun _ => yields_bind fun _ => yields_bind fun _ => yields_bind fun _ =>
    yields_pure (stocked_of_plain (by simp [Form.forms]) trivial)

theorem yields_returnStatement : Yields returnStatement Stocked := by
  refine yields_bind fun keyword => ?_
  split
  · exact yields_refuse _ _
  · exact yields_bind fun _ => yields_pure (stocked_of_plain (by simp [Form.forms]) trivial)

theorem yields_callStatement : Yields callStatement Stocked :=
  yields_bind fun _ => yields_bind fun _ =>
    yields_pure (stocked_of_plain (by simp [Form.forms]) trivial)

theorem yields_accessStatement : Yields accessStatement Stocked := by
  refine yields_bind fun name => yields_bind fun access => ?_
  split
  · refine yields_bind fun accepted => ?_
    split
    · exact yields_bind fun _ => yields_pure (stocked_of_plain (by simp [Form.forms]) trivial)
    · exact yields_pure (stocked_of_plain (by simp [Form.forms]) trivial)
  · exact yields_pure (stocked_of_plain (by simp [Form.forms]) trivial)

theorem yields_assignStatement : Yields assignStatement Stocked :=
  yields_bind fun _ => yields_bind fun _ => yields_bind fun _ =>
    yields_pure (stocked_of_plain (by simp [Form.forms]) trivial)

theorem yields_statement (hresolve : ResolvesStandard resolve)
    {function : Bool → Parser Statement} (hfunction : ∀ exported, Yields (function exported) Stocked) :
    Yields (statement resolve function) Stocked := by
  refine yields_bind fun cursor => ?_
  split
  · exact yields_refuseEnd _
  · split
    · exact yields_importStatement hresolve false
    · exact yields_exportStatement hresolve hfunction
    · exact hfunction false
    · exact yields_declareStatement
    · exact yields_returnStatement
    · split
      · exact yields_callStatement
      · exact yields_accessStatement
      · exact yields_assignStatement
      · exact yields_refuse _ _

theorem yields_statements {one : Parser Statement} (h : Yields one Stocked) (count : Nat) :
    Yields (statements one count) fun list => ∀ st ∈ list, Stocked st := by
  induction count with
  | zero => exact yields_pure (by simp)
  | succ count ih =>
    refine yields_bind fun cursor => ?_
    split
    · exact yields_pure (by simp)
    · refine h.bind fun first hfirst => ih.bind fun rest hrest => ?_
      exact yields_pure (List.forall_mem_cons.mpr ⟨hfirst, hrest⟩)

theorem stocked_of_all {one : Parser Statement} (h : Yields one Stocked) {tokens : List Token}
    {list : List Statement} (hall : all one tokens = .ok list) : ∀ st ∈ list, Stocked st := by
  obtain ⟨pair, hrun, hlist⟩ := exists_of_bind_eq_ok
    (x := statements one tokens.length { previous := {}, rest := tokens })
    (f := fun pair => .ok pair.1) hall
  cases hlist
  exact yields_statements h _ _ _ _ hrun

/-- The import table of a list of statements holds the modules that they name. -/
theorem imports_ofStatements {statements : List Statement} (h : ∀ st ∈ statements, Stocked st) :
    (Program.ofStatements statements).imports.modules ⊆ Library.modules := by
  intro m hm
  rcases ImportTable.mem_foldl_insert hm with hm | hm
  · cases hm
  · obtain ⟨st, hst, hmodule⟩ := List.mem_filterMap.mp hm
    have hstandard := (h st hst).1 _ (mem_forms_self st.form)
    cases hform : st.form with
    | useModule module =>
      rw [hform] at hmodule hstandard
      cases hmodule
      exact hstandard
    | _ =>
      rw [hform] at hmodule
      cases hmodule

theorem forms_ofStatements {statements : List Statement} (h : ∀ st ∈ statements, Stocked st) :
    ∀ form ∈ formsOf (Program.ofStatements statements).statements, form.Standard := by
  intro form hform
  obtain ⟨st, hst, hform⟩ := mem_formsOf.mp hform
  exact (h st hst).1 form hform

theorem yields_nestedFunction (exported : Bool) : Yields (nestedFunction exported) Stocked :=
  yields_bind fun _ => yields_refuse _ _

theorem standard_of_body (hresolve : ResolvesStandard resolve) {name : String}
    {tokens : List Token} {program : Program} (h : body resolve name tokens = .ok program) :
    program.imports.modules ⊆ Library.modules ∧ ∀ form ∈ formsOf program.statements, form.Standard := by
  rw [body_eq] at h
  obtain ⟨list, hall, hprogram⟩ := exists_of_bind_eq_ok h
  cases hprogram
  have hlist := stocked_of_all (yields_statement hresolve yields_nestedFunction) hall
  exact ⟨imports_ofStatements hlist, forms_ofStatements hlist⟩

theorem yields_functionStatement (hresolve : ResolvesStandard resolve) (file : Option SourceFile)
    (exported : Bool) : Yields (functionStatement resolve file exported) Stocked := by
  refine yields_bind fun keyword => ?_
  split
  · exact yields_refuse _ _
  · refine yields_bind fun name => yields_bind fun _ => yields_bind fun params =>
      yields_bind fun _ => yields_bind fun cursor => ?_
    split
    · exact yields_refuseEnd _
    · refine (yields_lift fun program h => standard_of_body hresolve h).bind fun program h => ?_
      refine yields_bind fun _ => yields_pure ⟨?_, fun _ => trivial⟩
      intro form hform
      rw [statementAt, Form.forms, Declaration.forms_eq] at hform
      rcases List.mem_cons.mp hform with rfl | hform
      · exact h.1
      · exact h.2 form hform

end Program.Parser

namespace Program

theorem standard_of_ofTokens {resolve : Resolver} (hresolve : Parser.ResolvesStandard resolve)
    {file : Option SourceFile} {tokens : List Token} {program : Program}
    (h : ofTokens resolve file tokens = .ok program) :
    program.imports.modules ⊆ Library.modules ∧ ∀ st ∈ program.statements, Parser.Stocked st := by
  rw [ofTokens_eq] at h
  obtain ⟨list, hall, hprogram⟩ := exists_of_bind_eq_ok h
  cases hprogram
  have hlist := Parser.stocked_of_all
    (Parser.yields_statement hresolve (Parser.yields_functionStatement hresolve file)) hall
  exact ⟨Parser.imports_ofStatements hlist, hlist⟩

end Program

/-! ## What imports stand for -/

namespace Loader

/-- The statements that a file exports, as the form that imports them. -/
theorem useFile_standard {file : SourceFile} {program : Program}
    (himports : program.imports.modules ⊆ Library.modules)
    (hstatements : ∀ st ∈ program.statements, Program.Parser.Stocked st) :
    ∀ form ∈ (Form.useFile file
        { program with statements := program.statements.filter (·.exported) }).forms,
      form.Standard := by
  intro form hform
  rw [Form.forms, Program.forms_eq] at hform
  rcases List.mem_cons.mp hform with rfl | hform
  · refine ⟨himports, fun st hst => ?_⟩
    obtain ⟨hst, hexported⟩ := List.mem_filter.mp hst
    exact (hstatements st hst).2 hexported
  · obtain ⟨st, hst, hform⟩ := mem_formsOf.mp hform
    exact (hstatements st (List.mem_filter.mp hst).1).1 form hform

/-- An import that names a file leads to it by its path. -/
theorem reach_of_fileAt? {loader : Loader} {name : String} {place : Place}
    (h : loader.fileAt? name = some place) : loader.files.reach (loader.path name) = .ok place := by
  unfold fileAt? FileTree.fileAt? at h
  split at h
  · split at h
    · next hreach =>
      split at h
      · cases h
        exact hreach
      · cases h
    · cases h
  · cases h

/-- An import stands for a module of the host, or for what is exported by the program of a file that
was not in progress. -/
theorem resolve_cases {loader : Loader} {target : Token} {form : Form}
    (h : loader.resolve target = .ok form) :
    (∃ module, loader.registry.resolve? target.lexeme = some module ∧ form = .useModule module) ∨
    ∃ (file : SourceFile) (place : Place) (program : Program),
      form = .useFile file { program with statements := program.statements.filter (·.exported) } ∧
      loader.files.readPath file.path = .ok file.source ∧
      (loader.forImport file place).remaining < loader.remaining ∧
      (loader.forImport file place).ofSource file.source = .ok program := by
  rw [resolve] at h
  split at h
  · next module hmodule _ =>
    cases h
    exact .inl ⟨module, hmodule, rfl⟩
  · cases h
  · cases h
  · next place _ hplace =>
    split at h
    · cases h
    · next hnew =>
      simp only at h
      split at h
      · cases h
      · next source hread =>
        obtain ⟨tokens, hscan, h⟩ := exists_of_bind_eq_ok h
        obtain ⟨program, hprogram, h⟩ := exists_of_bind_eq_ok h
        split at h
        · cases h
        · cases h
          refine .inr ⟨_, place, program, rfl, ?_, remaining_forImport_lt _ hnew hread, ?_⟩
          · rw [FileTree.readPath, reach_of_fileAt? hplace]
            exact hread
          · rw [ofSource, eq_ok_of_mapError hscan]
            exact eq_ok_of_mapError hprogram

/-- The induction is on the files that are not in progress, as in the definition of `resolve`. -/
theorem resolvesStandard {loader : Loader} (hregistry : loader.registry = Library.standard) :
    Program.Parser.ResolvesStandard loader.resolve := by
  induction hn : loader.remaining using Nat.strongRecOn generalizing loader with
  | ind n ih =>
    intro target form hform
    rcases resolve_cases hform with
      ⟨module, hmodule, rfl⟩ | ⟨file, place, program, rfl, -, hlt, hload⟩
    · rw [hregistry] at hmodule
      refine ⟨fun f hf => ?_, trivial⟩
      rw [Form.forms, List.mem_singleton] at hf
      exact hf ▸ Library.mem_modules_of_resolve? hmodule
    · obtain ⟨tokens, -, htokens⟩ := exists_of_bind_eq_ok hload
      have hinner : Program.Parser.ResolvesStandard (loader.forImport file place).resolve :=
        ih _ (hn ▸ hlt) hregistry rfl
      obtain ⟨himports, hstatements⟩ := Program.standard_of_ofTokens hinner htokens
      exact ⟨useFile_standard himports hstatements, trivial⟩

theorem standard_of_ofTokens {loader : Loader} (hregistry : loader.registry = Library.standard)
    {tokens : List Token} {program : Program} (h : loader.ofTokens tokens = .ok program) :
    program.imports.modules ⊆ Library.modules ∧ ∀ form ∈ formsOf program.statements, form.Standard := by
  obtain ⟨himports, hstatements⟩ := Program.standard_of_ofTokens (resolvesStandard hregistry) h
  refine ⟨himports, fun form hform => ?_⟩
  obtain ⟨st, hst, hform⟩ := mem_formsOf.mp hform
  exact (hstatements st hst).1 form hform

end Loader

end Scripting
