import Scripting.Proofs.Reading

/-!
# Well-formed programs

What a run takes for granted about the programs that it is given is said here in one place. A
program is well-formed in a `Setting`: the words of its text that are free to name something, the
modules that its imports may stand for, and the file that it is written in. The rules of
`Form.WellFormed` follow the statement into the bodies of functions, where the scope is the
function's name, and into imported files, where it is none and the setting is that of the file.

The main result is that everything that is read from tokens without a scope is well-formed. The
induction is on the files that are not in progress, as for loading itself; inside a file, the
grammar gives one rule for each form.
-/

namespace Scripting

/-! ## Import tables -/

namespace ImportTable

/-- The table lists the modules: these and no others, each name once, in the order in which the
names occur first. -/
structure Lists (table : ImportTable) (modules : List Module) : Prop where
  names : table.names = (modules.map Module.name).eraseDups
  mem_iff : ∀ module, module ∈ table.modules ↔ module ∈ modules

/-- Where modules of the same name are the same, the table of some modules lists them. -/
theorem lists_foldl_insert {modules : List Module}
    (hsame : ∀ m ∈ modules, ∀ m' ∈ modules, m.name = m'.name → m = m') :
    (modules.foldl insert {}).Lists modules := by
  have hnames : (modules.foldl insert {}).names = (modules.map Module.name).eraseDups := by
    rw [names_foldl_insert, List.filter_eq_self.mpr (by simp [names])]
    simp [names]
  have hsub : ∀ m ∈ (modules.foldl insert {}).modules, m ∈ modules :=
    fun m hm => (mem_foldl_insert hm).resolve_left List.not_mem_nil
  refine ⟨hnames, fun module => ⟨hsub module, fun hmodule => ?_⟩⟩
  -- A module of this name is in the table, and it is this one.
  have hname : module.name ∈ (modules.foldl insert {}).names := by
    rw [hnames, List.mem_eraseDups]
    exact List.mem_map_of_mem hmodule
  obtain ⟨other, hother, heq⟩ := List.mem_map.mp hname
  exact hsame other (hsub other hother) module hmodule heq ▸ hother

/-- There is one table that lists some modules. -/
theorem Lists.unique {table other : ImportTable} {modules : List Module} (h : table.Lists modules)
    (hother : other.Lists modules)
    (hsame : ∀ m ∈ modules, ∀ m' ∈ modules, m.name = m'.name → m = m') : table = other := by
  obtain ⟨xs⟩ := table
  obtain ⟨ys⟩ := other
  have hnames : xs.map Module.name = ys.map Module.name := h.names.trans hother.names.symm
  have hxs : ∀ m ∈ xs, m ∈ modules := fun m => (h.mem_iff m).mp
  have hys : ∀ m ∈ ys, m ∈ modules := fun m => (hother.mem_iff m).mp
  clear h hother
  congr 1
  induction xs generalizing ys with
  | nil => simpa using hnames.symm
  | cons x xs ih =>
    cases ys with
    | nil => simp at hnames
    | cons y ys =>
      obtain ⟨hhead, htail⟩ := List.cons.inj hnames
      have hxy := hsame x (hxs x List.mem_cons_self) y (hys y List.mem_cons_self) hhead
      rw [hxy, ih ys htail (fun m hm => hxs m (List.mem_cons_of_mem _ hm))
        fun m hm => hys m (List.mem_cons_of_mem _ hm)]

end ImportTable

/-! ## The rules -/

/-- What is known about the text that a program is written in: the words that are free to name
something, the modules that imports may stand for, and the file, if it is imported. -/
structure Setting where
  names : String → Prop
  known : Module → Prop
  file : Option SourceFile

/-- Some of the tokens is the word, free to name something. -/
def Token.Names (tokens : List Token) (word : String) : Prop :=
  ∃ token ∈ tokens, token.isName ∧ token.lexeme = word

/-- The setting of a file with the given tokens, when it is imported. -/
def Setting.ofFile (setting : Setting) (file : SourceFile) (tokens : List Token) : Setting :=
  { setting with names := Token.Names tokens, file := some file }

section Parts

variable (names : String → Prop) (scope : Option String)

/-- An argument is a literal or a name, and carries the scope. -/
structure Token.IsArgument (token : Token) : Prop where
  scope : token.scope = scope
  kind : token.kind.isLiteral ∨ token.isName ∧ names token.lexeme

/-- A call names a function. -/
structure Call.WellFormed (call : Call) : Prop where
  name : names call.name
  args : ∀ token ∈ call.args, token.IsArgument names scope

/-- A field has two names. -/
structure Access.WellFormed (access : Access) : Prop where
  module : names access.module
  field : names access.field
  args : ∀ args, access.args = some args → ∀ token ∈ args, token.IsArgument names scope

/-- A value is built from names and literals that carry the scope. -/
inductive Expr.WellFormed : Expr → Prop
  | literal {token : Token} (hscope : token.scope = scope) (hkind : token.kind.isLiteral) :
      Expr.WellFormed (.literal token)
  | reference {token : Token} (hscope : token.scope = scope) (hname : token.isName)
      (hnames : names token.lexeme) : Expr.WellFormed (.reference token)
  | call {call : Call} (hcall : call.WellFormed names scope) : Expr.WellFormed (.call call)
  | access {access : Access} (haccess : access.WellFormed names scope) :
      Expr.WellFormed (.access access)

end Parts

mutual

/-- What a statement with the given scope may do. Functions stand at the top level of a file only,
and returns in the body of a function only. What is imported from a file stands at its top level. -/
inductive Form.WellFormed : Setting → Option String → Form → Prop
  | function {setting : Setting} {declaration : Declaration}
      (hname : setting.names declaration.name)
      (hparams : ∀ param ∈ declaration.params, setting.names param.name)
      (hdistinct : (declaration.params.map Param.name).Nodup)
      (hbody : Program.WellFormed setting (some declaration.name) declaration.body)
      (hfile : declaration.file = setting.file) :
      Form.WellFormed setting none (.function declaration)
  | call {setting : Setting} {scope : Option String} {call : Call}
      (hcall : call.WellFormed setting.names scope) : Form.WellFormed setting scope (.call call)
  | access {setting : Setting} {scope : Option String} {access : Access}
      (haccess : access.WellFormed setting.names scope) :
      Form.WellFormed setting scope (.access access)
  | declare {setting : Setting} {scope : Option String} {name : String} {value : Expr}
      (hname : setting.names name) (hvalue : value.WellFormed setting.names scope) :
      Form.WellFormed setting scope (.declare name value)
  | assign {setting : Setting} {scope : Option String} {name : String} {value : Expr}
      (hname : setting.names name) (hvalue : value.WellFormed setting.names scope) :
      Form.WellFormed setting scope (.assign (.var name) value)
  | assignField {setting : Setting} {scope : Option String} {map field : String} {value : Expr}
      (hmap : setting.names map) (hfield : setting.names field)
      (hvalue : value.WellFormed setting.names scope) :
      Form.WellFormed setting scope (.assign (.field map field) value)
  | returns {setting : Setting} {function : String} {value : Expr}
      (hvalue : value.WellFormed setting.names (some function)) :
      Form.WellFormed setting (some function) (.returns value)
  | useModule {setting : Setting} {scope : Option String} {module : Module}
      (hmodule : setting.known module) : Form.WellFormed setting scope (.useModule module)
  | useFile {setting : Setting} {scope : Option String} {file : SourceFile} {program : Program}
      {tokens : List Token} (hscan : Token.scan file.source = .ok tokens)
      (hsome : program.statements ≠ []) (hexported : ∀ st ∈ program.statements, st.exported)
      (hstatements : ∀ st ∈ program.statements,
        Statement.WellFormed (setting.ofFile file tokens) none st) :
      Form.WellFormed setting scope (.useFile file program)

/-- A statement carries the scope, and it is exported only if it is an import or a function. -/
inductive Statement.WellFormed : Setting → Option String → Statement → Prop
  | mk {setting : Setting} {scope : Option String} {st : Statement} (hscope : st.scope = scope)
      (hexported : st.exported → st.form.IsExport)
      (hform : Form.WellFormed setting scope st.form) : Statement.WellFormed setting scope st

/-- The statements of a program carry the scope, and its table lists the modules they import. -/
inductive Program.WellFormed : Setting → Option String → Program → Prop
  | mk {setting : Setting} {scope : Option String} {program : Program}
      (hstatements : ∀ st ∈ program.statements, Statement.WellFormed setting scope st)
      (himports : program.imports.Lists (program.statements.filterMap (·.form.module?))) :
      Program.WellFormed setting scope program

end

/-! ## Tokens of a text -/

namespace Token

theorem scope_of_cut {position : Position} {c : Char} {rest : List Char} {piece : Piece}
    (h : cut position c rest = .ok piece) : piece.token.scope = none := by
  unfold cut at h
  split at h
  · cases h
    rfl
  · split at h
    · unfold cutString at h
      dsimp only at h
      split at h <;> cases h
      rfl
    · split at h
      · unfold cutWord at h
        dsimp only at h
        split at h <;> cases h
        rfl
      · cases h

theorem scope_of_mem_scanFrom {position : Position} {cs : List Char} {tokens : List Token}
    (h : scanFrom position cs = .ok tokens) : ∀ token ∈ tokens, token.scope = none := by
  fun_induction scanFrom position cs generalizing tokens with
  | case1 =>
    cases h
    simp
  | case2 position c rest hlayout ih => exact ih h
  | case3 position c rest hlayout hcomment ih => exact ih h
  | case4 => cases h
  | case5 position c rest hlayout hcomment piece hcut hle ih =>
    obtain ⟨more, hmore, h⟩ := exists_of_bind_eq_ok h
    cases h
    exact List.forall_mem_cons.mpr ⟨scope_of_cut hcut, ih hmore⟩

/-- The tokens of a text carry no scope. -/
theorem scope_of_mem_scan {source : String} {tokens : List Token} (h : scan source = .ok tokens) :
    ∀ token ∈ tokens, token.scope = none :=
  scope_of_mem_scanFrom h

/-- The tokens carry the scope, and all that are free to name something are among the names. -/
def StandIn (names : String → Prop) (scope : Option String) (tokens : List Token) : Prop :=
  ∀ token ∈ tokens, token.scope = scope ∧ (token.isName → names token.lexeme)

theorem standIn_cons {names : String → Prop} {scope : Option String} {token : Token}
    {tokens : List Token} : StandIn names scope (token :: tokens) ↔
      (token.scope = scope ∧ (token.isName → names token.lexeme)) ∧ StandIn names scope tokens :=
  List.forall_mem_cons

theorem standIn_append {names : String → Prop} {scope : Option String} {tokens more : List Token} :
    StandIn names scope (tokens ++ more) ↔
      StandIn names scope tokens ∧ StandIn names scope more :=
  List.forall_mem_append

/-- The tokens of a body carry the name of the function. -/
theorem StandIn.inBody {names : String → Prop} {scope : Option String} {tokens : List Token}
    (h : StandIn names scope tokens) (name : String) :
    StandIn names (some name) (tokens.map (Token.inBody name)) := by
  intro token htoken
  obtain ⟨inner, hinner, rfl⟩ := List.mem_map.mp htoken
  exact ⟨rfl, (h inner hinner).2⟩

theorem standIn_names {tokens : List Token} (h : ∀ token ∈ tokens, token.scope = none) :
    StandIn (Names tokens) none tokens :=
  fun token htoken => ⟨h token htoken, fun hname => ⟨token, htoken, hname, rfl⟩⟩

end Token

/-! ## Phrases -/

namespace Program.Grammar

open Token (StandIn standIn_cons standIn_append)

section Values

variable {names : String → Prop} {scope : Option String} {tokens : List Token}

theorem isArgument_of_argument {token : Token} (h : Argument tokens token)
    (hin : StandIn names scope tokens) : token.IsArgument names scope := by
  cases h with
  | literal hkind => exact ⟨(hin token (by simp)).1, .inl hkind⟩
  | name hname =>
    obtain ⟨hscope, hnames⟩ := hin token (by simp)
    exact ⟨hscope, .inr ⟨hname, hnames hname⟩⟩

theorem isArgument_of_items {args : List Token} (h : Items Argument tokens args)
    (hin : StandIn names scope tokens) : ∀ token ∈ args, token.IsArgument names scope := by
  induction h with
  | last hitem =>
    simpa using isArgument_of_argument hitem (standIn_append.mp hin).1
  | more hitem _ _ ih =>
    obtain ⟨hfirst, hrest⟩ := standIn_append.mp hin
    exact List.forall_mem_cons.mpr
      ⟨isArgument_of_argument hitem hfirst, ih (standIn_cons.mp hrest).2⟩

theorem isArgument_of_listed {args : List Token} (h : Listed Argument tokens args)
    (hin : StandIn names scope tokens) : ∀ token ∈ args, token.IsArgument names scope := by
  cases h with
  | none => simp
  | some hitems => exact isArgument_of_items hitems hin

theorem CallPhrase.wellFormed {call : Call} (h : CallPhrase tokens call)
    (hin : StandIn names scope tokens) : call.WellFormed names scope := by
  cases h with
  | mk hname _ hargs =>
    simp only [standIn_cons] at hin
    exact ⟨hin.1.2 hname, isArgument_of_listed hargs hin.2.2⟩

theorem AccessPhrase.wellFormed {access : Access} (h : AccessPhrase tokens access)
    (hin : StandIn names scope tokens) : access.WellFormed names scope := by
  cases h with
  | field hname _ hfield =>
    simp only [standIn_cons] at hin
    exact ⟨hin.1.2 hname, hin.2.2.1.2 hfield, fun _ h => by cases h⟩
  | call hname _ hfield _ hargs =>
    simp only [standIn_cons] at hin
    refine ⟨hin.1.2 hname, hin.2.2.1.2 hfield, fun _ h => ?_⟩
    cases h
    exact isArgument_of_listed hargs hin.2.2.2.2

theorem ValuePhrase.wellFormed {value : Expr} (h : ValuePhrase tokens value)
    (hin : StandIn names scope tokens) : value.WellFormed names scope := by
  cases h with
  | literal hkind => exact .literal (hin _ (by simp)).1 hkind
  | reference hname =>
    obtain ⟨hscope, hnames⟩ := (standIn_cons.mp hin).1
    exact .reference hscope hname (hnames hname)
  | call h => exact .call (h.wellFormed hin)
  | access h => exact .access (h.wellFormed hin)

theorem names_of_parameters {params : List Param} (h : Listed Parameter tokens params)
    (hin : StandIn names scope tokens) : ∀ param ∈ params, names param.name := by
  have hitem : ∀ {tokens param}, Parameter tokens param → StandIn names scope tokens →
      names param.name := by
    intro tokens param h hin
    cases h with
    | plain hname | typed hname => exact (standIn_cons.mp hin).1.2 hname
  cases h with
  | none => simp
  | some hitems =>
    induction hitems with
    | last h => simpa using hitem h (standIn_append.mp hin).1
    | more h _ _ ih =>
      obtain ⟨hfirst, hrest⟩ := standIn_append.mp hin
      exact List.forall_mem_cons.mpr ⟨hitem h hfirst, ih (standIn_cons.mp hrest).2⟩

end Values

/-- Whatever an import stands for is well-formed at every scope and can be exported. -/
def Provides (resolve : Resolver) (setting : Setting) : Prop :=
  ∀ target form, resolve target = .ok form →
    form.IsExport ∧ ∀ scope, form.WellFormed setting scope

variable {resolve : Resolver} {setting : Setting} {scope : Option String} {tokens : List Token}

theorem Import.wellFormed (hresolve : Provides resolve setting) {exported : Bool} {st : Statement}
    (h : Import resolve exported tokens st) (hin : StandIn setting.names scope tokens) :
    st.WellFormed setting scope := by
  cases h with
  | mk _ _ hform =>
    obtain ⟨hexport, hwell⟩ := hresolve _ _ hform
    exact .mk (hin _ (by simp)).1 (fun _ => hexport) (hwell scope)

/-- One rule of well-formedness for each rule of the grammar. -/
theorem Phrase.wellFormed (hresolve : Provides resolve setting)
    {F : Bool → List Token → Statement → Prop}
    (hfunction : ∀ exported tokens st, F exported tokens st → StandIn setting.names scope tokens →
      st.WellFormed setting scope)
    {st : Statement} (h : Phrase resolve F tokens st)
    (hin : StandIn setting.names scope tokens) : st.WellFormed setting scope := by
  cases h with
  | imports h => exact h.wellFormed hresolve hin
  | exportsImport _ h => exact h.wellFormed hresolve (standIn_cons.mp hin).2
  | function h => exact hfunction _ _ _ h hin
  | exportsFunction _ h => exact hfunction _ _ _ h (standIn_cons.mp hin).2
  | declare _ hname _ hvalue =>
    simp only [standIn_cons] at hin
    exact .mk hin.1.1 nofun (.declare (hin.2.1.2 hname) (hvalue.wellFormed hin.2.2.2))
  | returns _ hscope hvalue =>
    obtain ⟨hkeyword, hin⟩ := standIn_cons.mp hin
    cases scope with
    | none => exact (hscope hkeyword.1).elim
    | some function => exact .mk hkeyword.1 nofun (.returns (hvalue.wellFormed hin))
  | call h => exact .mk (standIn_cons.mp hin).1.1 nofun (.call (h.wellFormed hin))
  | access h => exact .mk (standIn_cons.mp hin).1.1 nofun (.access (h.wellFormed hin))
  | assign hname _ hvalue =>
    simp only [standIn_cons] at hin
    exact .mk hin.1.1 nofun (.assign (hin.1.2 hname) (hvalue.wellFormed hin.2.2))
  | assignField hname _ hfield _ hvalue =>
    simp only [standIn_cons] at hin
    exact .mk hin.1.1 nofun
      (.assignField (hin.1.2 hname) (hin.2.2.1.2 hfield) (hvalue.wellFormed hin.2.2.2.2))

theorem Sequence.wellFormed {One : List Token → Statement → Prop}
    (hone : ∀ tokens st, One tokens st → StandIn setting.names scope tokens →
      st.WellFormed setting scope)
    {statements : List Statement} (h : Sequence One tokens statements)
    (hin : StandIn setting.names scope tokens) :
    ∀ st ∈ statements, st.WellFormed setting scope := by
  induction h with
  | nil => simp
  | cons hfirst _ ih =>
    obtain ⟨hin, hrest⟩ := standIn_append.mp hin
    exact List.forall_mem_cons.mpr ⟨hone _ _ hfirst hin, ih hrest⟩

end Program.Grammar

/-! ## Programs -/

/-- The modules that well-formed statements import are known. -/
theorem known_of_mem_modules {setting : Setting} {scope : Option String}
    {statements : List Statement} (h : ∀ st ∈ statements, st.WellFormed setting scope) :
    ∀ module ∈ statements.filterMap (·.form.module?), setting.known module := by
  intro module hmodule
  obtain ⟨st, hst, hmodule⟩ := List.mem_filterMap.mp hmodule
  cases h st hst with
  | mk _ _ hform =>
    cases hst : st.form with
    | useModule other =>
      rw [hst] at hmodule hform
      cases hmodule
      cases hform with
      | useModule hknown => exact hknown
    | _ =>
      rw [hst] at hmodule
      cases hmodule

namespace Setting

/-- Modules that are known by the same name are the same. -/
def Definite (setting : Setting) : Prop :=
  ∀ module other, setting.known module → setting.known other → module.name = other.name →
    module = other

variable {setting : Setting}

theorem Definite.ofStatements (hdefinite : setting.Definite) {scope : Option String}
    {statements : List Statement} (h : ∀ st ∈ statements, st.WellFormed setting scope) :
    (Program.ofStatements statements).WellFormed setting scope := by
  have hknown := known_of_mem_modules h
  exact .mk h (ImportTable.lists_foldl_insert fun module hmodule other hother =>
    hdefinite module other (hknown module hmodule) (hknown other hother))

/-- A well-formed program has the import table of its statements. -/
theorem Definite.eq_ofStatements (hdefinite : setting.Definite) {scope : Option String}
    {program : Program} (h : program.WellFormed setting scope) :
    program = .ofStatements program.statements := by
  cases h with
  | mk hstatements himports =>
    have hknown := known_of_mem_modules hstatements
    have hsame := fun module hmodule other hother =>
      hdefinite module other (hknown module hmodule) (hknown other hother)
    have htable := himports.unique (ImportTable.lists_foldl_insert hsame) hsame
    cases program
    exact congrArg _ htable

end Setting

namespace Program.Grammar

open Token (StandIn standIn_cons standIn_append)

variable {resolve : Resolver} {setting : Setting} {tokens : List Token}

theorem Function.wellFormed (hresolve : Provides resolve setting) (hdefinite : setting.Definite)
    {exported : Bool} {st : Statement} (h : Function resolve setting.file exported tokens st)
    (hin : StandIn setting.names none tokens) : st.WellFormed setting none := by
  cases h with
  | mk _ hscope hname _ hparams hdistinct _ hbody _ =>
    simp only [standIn_cons, standIn_append] at hin
    obtain ⟨-, hfunction, -, hlist, -, hinner, -⟩ := hin
    have hstatements := hbody.wellFormed
      (fun _ _ => Phrase.wellFormed hresolve fun _ _ _ h => h.elim) (hinner.inBody _)
    exact .mk hscope (fun _ => trivial)
      (.function (hfunction.2 hname) (names_of_parameters hparams hlist) hdistinct
        (hdefinite.ofStatements hstatements) rfl)

theorem Sentences.wellFormed (hresolve : Provides resolve setting) (hdefinite : setting.Definite)
    {statements : List Statement} (h : Sentences resolve setting.file tokens statements)
    (hin : StandIn setting.names none tokens) :
    (ofStatements statements).WellFormed setting none :=
  hdefinite.ofStatements <| Sequence.wellFormed
    (fun _ _ => Phrase.wellFormed hresolve fun _ _ _ => Function.wellFormed hresolve hdefinite) h
    hin

end Program.Grammar

/-! ## Loaded programs -/

namespace Loader

/-- The setting of the tokens that the loader reads: names are the words that occur in them, and a
module is known if it is what the registry offers under its name. -/
def setting (loader : Loader) (tokens : List Token) : Setting where
  names := Token.Names tokens
  known module := loader.registry.resolve? module.name = some module
  file := loader.file

theorem definite_setting (loader : Loader) (tokens : List Token) :
    (loader.setting tokens).Definite := by
  intro module other hmodule hother hname
  have hsame : some module = some other := by
    rw [← hmodule, ← hother, hname]
  exact Option.some.inj hsame

/-- A file that exports nothing cannot be imported. -/
theorem statements_ne_nil_of_resolve {loader : Loader} {target : Token} {file : SourceFile}
    {program : Program} (h : loader.resolve target = .ok (.useFile file program)) :
    program.statements ≠ [] := by
  rw [resolve] at h
  split at h
  · cases h
  · cases h
  · cases h
  · split at h
    · cases h
    · simp only at h
      split at h
      · cases h
      · obtain ⟨tokens, -, h⟩ := exists_of_bind_eq_ok h
        obtain ⟨read, -, h⟩ := exists_of_bind_eq_ok h
        split at h
        · cases h
        · next hsome =>
          cases h
          simpa using hsome

/-- What a loader reads is well-formed, if what its imports stand for is. -/
theorem wellFormed_of_provides {loader : Loader} {tokens : List Token} {program : Program}
    (hresolve : Program.Grammar.Provides loader.resolve (loader.setting tokens))
    (hscope : ∀ token ∈ tokens, token.scope = none) (h : loader.ofTokens tokens = .ok program) :
    program.WellFormed (loader.setting tokens) none := by
  obtain ⟨statements, rfl, hsentences⟩ := Program.ofTokens_eq_ok_iff.mp h
  exact Program.Grammar.Sentences.wellFormed hresolve (loader.definite_setting tokens) hsentences
    (Token.standIn_names hscope)

/-- The induction is on the files that are not in progress, as in the definition of `resolve`. -/
theorem provides_resolve (loader : Loader) (tokens : List Token) :
    Program.Grammar.Provides loader.resolve (loader.setting tokens) := by
  induction hn : loader.remaining using Nat.strongRecOn generalizing loader tokens with
  | ind n ih =>
    intro target form hform
    rcases resolve_cases hform with
      ⟨module, hmodule, rfl⟩ | ⟨file, place, program, rfl, -, hlt, hload⟩
    · have hknown : loader.registry.resolve? module.name = some module := by
        rw [loader.registry.named _ _ hmodule, hmodule]
      exact ⟨trivial, fun scope => .useModule hknown⟩
    · obtain ⟨inner, hscan, hread⟩ := exists_of_bind_eq_ok hload
      have hprovides := ih _ (hn ▸ hlt) (loader.forImport file place) inner rfl
      cases wellFormed_of_provides hprovides (Token.scope_of_mem_scan hscan) hread with
      | mk hstatements _ =>
        refine ⟨trivial, fun scope => .useFile hscan (statements_ne_nil_of_resolve hform) ?_ ?_⟩
        · exact fun st hst => (List.mem_filter.mp hst).2
        · exact fun st hst => hstatements st (List.mem_filter.mp hst).1

end Loader

/-- What is read from tokens without a scope is well-formed, whatever the registry and the files. -/
theorem wellFormed_of_ofTokens {loader : Loader} {tokens : List Token} {program : Program}
    (hscope : ∀ token ∈ tokens, token.scope = none) (h : loader.ofTokens tokens = .ok program) :
    program.WellFormed (loader.setting tokens) none :=
  Loader.wellFormed_of_provides (loader.provides_resolve tokens) hscope h

/-- A file with a function that is exported and one that is not. -/
def innerImport : String :=
  "function own() \x7b return 1 \x7d export function g(a: Number) \x7b return a \x7d"

/-- A script whose function imports the file, and which imports a module twice. -/
def innerScript : String :=
  "import \"IO\" function f(x, y) \x7b import \"lib.mrk\" IO.print(x, 1) var z = g(2) return z \x7d " ++
  "export import \"Math\" import \"IO\""

/-- The loader of the script, which finds the file next to it. -/
def innerLoader : Loader where
  registry := Library.standard
  files := { entries := [(["lib.mrk"], .text innerImport)] }

theorem wellFormed_of_ofTokens_inner :
    ∃ (tokens : List Token) (program : Program), Token.scan innerScript = .ok tokens ∧
      (∀ token ∈ tokens, token.scope = none) ∧ innerLoader.ofTokens tokens = .ok program ∧
      program.statements.length = 4 ∧ program.imports.names = ["IO", "Math"] ∧
      program.WellFormed (innerLoader.setting tokens) none := by
  have hloads : (innerLoader.ofSource innerScript).toOption.any (fun program =>
      decide (program.statements.length = 4 ∧ program.imports.names = ["IO", "Math"])) = true := by
    decide +kernel
  obtain ⟨program, hprogram, hfacts⟩ := (Option.any_eq_true _ _).mp hloads
  obtain ⟨hlength, hnames⟩ := of_decide_eq_true hfacts
  obtain ⟨tokens, hscan, hread⟩ := exists_of_bind_eq_ok (eq_ok_of_toOption hprogram)
  have hscope := Token.scope_of_mem_scan hscan
  exact ⟨tokens, program, hscan, hscope, hread, hlength, hnames,
    wellFormed_of_ofTokens hscope hread⟩

end Scripting
