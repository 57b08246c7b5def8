import Scripting.Proofs.Alike
import Scripting.Proofs.Printing

/-!
# Reading what was printed

What is printed for a well-formed program reads as that program. Scopes and import tables are not
printed, so a program comes back with the ones that its parts are bound to have: the name of the
function on all statements and tokens of its body, and in each table the modules that the statements
beside it import (`Program.tagged`).

Well-formedness follows the scopes down the syntax, and so does the argument here: for each rule of
well-formedness there is a rule of the grammar that takes what was printed.
-/

namespace Scripting

open Token (word reserved quoted mark listed listedArguments)

/-! ## Words and tokens -/

namespace Token

/-- The token is spelled as the word and carries the scope. -/
structure Spells (scope : Option String) (token word : Token) : Prop where
  kind : token.kind = word.kind
  lexeme : token.lexeme = word.lexeme
  scope : token.scope = scope

theorem forall₂_spells {tokens : List Token} {scope : Option String}
    (h : ∀ token ∈ tokens, token.scope = scope) :
    List.Forall₂ (Spells scope) tokens (tokens.map bare) := by
  rw [List.forall₂_map_right_iff, List.forall₂_same]
  exact fun token htoken => ⟨rfl, rfl, h token htoken⟩

theorem scope_of_spells {scope : Option String} {tokens words : List Token}
    (h : List.Forall₂ (Spells scope) tokens words) : ∀ token ∈ tokens, token.scope = scope := by
  induction h with
  | nil => simp
  | cons hfirst _ ih => exact List.forall_mem_cons.mpr ⟨hfirst.scope, ih⟩

theorem forall₂_spells_inBody {scope : Option String} {tokens words : List Token} (name : String)
    (h : List.Forall₂ (Spells scope) tokens words) :
    List.Forall₂ (Spells (some name)) (tokens.map (Token.inBody name)) words := by
  rw [List.forall₂_map_left_iff]
  exact h.imp fun _ _ h => ⟨h.kind, h.lexeme, rfl⟩

variable {scope : Option String} {token : Token}

/-- A word that is not reserved names something. -/
theorem Spells.isName {name : String} (h : token.Spells scope (word name))
    (hname : Keyword.ofText? name = none) : token.isName := by
  have hkind : token.kind = .identifier := h.kind
  have hlexeme : token.lexeme = name := h.lexeme
  simp [isName_iff, keyword?, hkind, hlexeme, hname]

theorem Spells.keyword? {keyword : Keyword} (h : token.Spells scope (reserved keyword)) :
    token.keyword? = some keyword := by
  have hkind : token.kind = .identifier := h.kind
  have hlexeme : token.lexeme = keyword.text := h.lexeme
  simp [Token.keyword?, hkind, hlexeme]

theorem Spells.alike {other : Token} (h : token.Spells scope other.bare)
    (hscope : other.scope = scope) : token.Alike .all other :=
  ⟨h.kind, h.lexeme, h.scope.trans hscope.symm, trivial⟩

end Token

namespace Program.Grammar

open Scripting.Program.Parser (statementAt)
open Token (Spells)

/-- Tokens with the scope that spell the words are taken for an item that is like the given one. -/
def Recovers {α : Type} (scope : Option String) (One : List Token → α → Prop) (Q : α → α → Prop)
    (words : List Token) (item : α) : Prop :=
  ∀ tokens, List.Forall₂ (Spells scope) tokens words → ∃ read, One tokens read ∧ Q read item

section Lists

variable {α : Type} {scope : Option String} {Item : List Token → α → Prop} {Q : α → α → Prop}
  {print : α → List Token}

theorem recovers_items {item : α} {items : List α}
    (hitem : ∀ x ∈ item :: items, Recovers scope Item Q (print x) x) :
    Recovers scope (Items Item) (List.Forall₂ Q) (listed ((item :: items).map print))
      (item :: items) := by
  induction items generalizing item with
  | nil =>
    intro tokens h
    obtain ⟨first, rest, rfl, hfirst, hrest⟩ := exists_of_forall₂_append_right h
    obtain _ | ⟨hclose, _ | _⟩ := hrest
    obtain ⟨read, hread, hQ⟩ := hitem item (by simp) _ hfirst
    exact ⟨[read], .last hread hclose.kind, .cons hQ .nil⟩
  | cons second items ih =>
    intro tokens h
    obtain ⟨first, rest, rfl, hfirst, hrest⟩ := exists_of_forall₂_append_right h
    obtain _ | ⟨hcomma, hrest⟩ := hrest
    obtain ⟨hitem, hitems⟩ := List.forall_mem_cons.mp hitem
    obtain ⟨read, hread, hQ⟩ := hitem _ hfirst
    obtain ⟨reads, hreads, hQs⟩ := ih hitems _ hrest
    exact ⟨read :: reads, .more hread hcomma.kind hreads, .cons hQ hQs⟩

theorem recovers_listed {items : List α} (hitem : ∀ x ∈ items, Recovers scope Item Q (print x) x) :
    Recovers scope (Listed Item) (List.Forall₂ Q) (listed (items.map print)) items := by
  intro tokens h
  cases items with
  | nil =>
    obtain _ | ⟨hclose, _ | _⟩ := h
    exact ⟨[], .none hclose.kind, .nil⟩
  | cons item items =>
    obtain ⟨reads, hreads, hQs⟩ := recovers_items hitem _ h
    exact ⟨reads, .some hreads, hQs⟩

end Lists

section Values

variable {names : String → Prop} (hnames : ∀ name, names name → Keyword.ofText? name = none)
  {scope : Option String}

theorem recovers_argument {token : Token} (h : token.IsArgument names scope) :
    Recovers scope Argument (Token.Alike .all) [token.bare] token := by
  intro tokens hspells
  obtain _ | ⟨hspells, _ | _⟩ := hspells
  have halike := hspells.alike h.scope
  refine ⟨_, ?_, halike⟩
  rcases h.kind with hkind | ⟨hname, -⟩
  · exact .literal (halike.kind ▸ hkind)
  · exact .name (halike.isName_eq ▸ hname)

theorem recovers_arguments {args : List Token} (h : ∀ token ∈ args, token.IsArgument names scope) :
    Recovers scope (Listed Argument) (List.Forall₂ (Token.Alike .all)) (listedArguments args)
      args :=
  recovers_listed fun token htoken => recovers_argument (h token htoken)

include hnames

theorem recovers_parameter {param : Param} (h : names param.name) :
    Recovers scope Parameter Eq param.print param := by
  intro tokens hspells
  obtain ⟨name, type⟩ := param
  cases type with
  | none =>
    obtain _ | ⟨hname, _ | _⟩ := hspells
    refine ⟨_, .plain (hname.isName (hnames _ h)), ?_⟩
    rw [hname.lexeme]
    rfl
  | some type =>
    obtain _ | ⟨hname, _ | ⟨hcolon, _ | ⟨htype, _ | _⟩⟩⟩ := hspells
    have htyped : ValueType.ofName? _ = some type :=
      (congrArg ValueType.ofName? htype.lexeme).trans (ValueType.ofName?_text type)
    refine ⟨_, .typed (hname.isName (hnames _ h)) hcolon.kind htyped, ?_⟩
    rw [hname.lexeme]
    rfl

theorem recovers_call {call : Call} (h : call.WellFormed names scope) :
    Recovers scope CallPhrase (Call.Alike .all) call.print call := by
  intro tokens hspells
  obtain _ | ⟨hname, _ | ⟨hopening, hargs⟩⟩ := hspells
  obtain ⟨args, hlisted, halike⟩ := recovers_arguments h.args _ hargs
  exact ⟨_, .mk (hname.isName (hnames _ h.name)) hopening.kind hlisted, hname.lexeme, halike,
    trivial⟩

theorem recovers_access {access : Access} (h : access.WellFormed names scope) :
    Recovers scope AccessPhrase (Access.Alike .all) access.print access := by
  intro tokens hspells
  obtain ⟨module, field, args, span⟩ := access
  cases args with
  | none =>
    obtain _ | ⟨hmodule, _ | ⟨hdot, _ | ⟨hfield, _ | _⟩⟩⟩ := hspells
    exact ⟨_, .field (hmodule.isName (hnames _ h.module)) hdot.kind
      (hfield.isName (hnames _ h.field)), hmodule.lexeme, hfield.lexeme, .none, trivial⟩
  | some args =>
    obtain _ | ⟨hmodule, _ | ⟨hdot, _ | ⟨hfield, _ | ⟨hopening, hargs⟩⟩⟩⟩ := hspells
    obtain ⟨read, hlisted, halike⟩ := recovers_arguments (h.args args rfl) _ hargs
    exact ⟨_, .call (hmodule.isName (hnames _ h.module)) hdot.kind
      (hfield.isName (hnames _ h.field)) hopening.kind hlisted, hmodule.lexeme, hfield.lexeme,
      .some halike, trivial⟩

theorem recovers_value {value : Expr} (h : value.WellFormed names scope) :
    Recovers scope ValuePhrase (Expr.Alike .all) value.print value := by
  intro tokens hspells
  cases h with
  | literal hscope hkind =>
    obtain _ | ⟨htoken, _ | _⟩ := hspells
    have halike := htoken.alike hscope
    exact ⟨_, .literal (halike.kind ▸ hkind), .literal halike⟩
  | reference hscope hname =>
    obtain _ | ⟨htoken, _ | _⟩ := hspells
    have halike := htoken.alike hscope
    exact ⟨_, .reference (halike.isName_eq ▸ hname), .reference halike⟩
  | call h =>
    obtain ⟨call, hcall, halike⟩ := recovers_call hnames h _ hspells
    exact ⟨_, .call hcall, .call halike⟩
  | access h =>
    obtain ⟨access, haccess, halike⟩ := recovers_access hnames h _ hspells
    exact ⟨_, .access haccess, .access halike⟩

end Values

/-- Names are not reserved, and an import of the name of a known module stands for the module. -/
structure Readable (resolve : Resolver) (setting : Setting) : Prop where
  names : ∀ name, setting.names name → Keyword.ofText? name = none
  known : ∀ module, setting.known module → ∀ target : Token, target.lexeme = module.name →
    resolve target = .ok (.useModule module)

namespace Readable

variable {resolve : Resolver} {setting : Setting} (h : Readable resolve setting)
  {scope : Option String} {st : Statement}

include h

/-- Modules that are known by the same name are the same, since an import stands for one thing. -/
theorem definite : setting.Definite := by
  intro module other hmodule hother hname
  have htarget := h.known module hmodule (quoted module.name) rfl
  rw [h.known other hother (quoted module.name) hname] at htarget
  cases htarget
  rfl

theorem recovers_import {module : Module} (hform : st.form = .useModule module)
    (hknown : setting.known module) (hscope : st.scope = scope) :
    Recovers scope (Import resolve st.exported) (Statement.Alike .all) st.form.print st := by
  intro tokens hspells
  rw [hform, Form.print] at hspells
  obtain _ | ⟨hkeyword, _ | ⟨htarget, _ | _⟩⟩ := hspells
  refine ⟨_, .mk hkeyword.keyword? htarget.kind (h.known module hknown _ htarget.lexeme), ?_⟩
  refine .mk ?_ trivial (hkeyword.scope.trans hscope.symm) rfl
  rw [hform]
  exact .useModule trivial

omit h in
/-- What may be exported is a phrase with the reserved word in front and without. -/
theorem recovers_export {F One : Bool → List Token → Statement → Prop}
    (hplain : ∀ tokens read, One false tokens read → Phrase resolve F tokens read)
    (hexport : ∀ exporter tokens read, exporter.keyword? = some .exports → One true tokens read →
      Phrase resolve F (exporter :: tokens) read)
    (hone : Recovers scope (One st.exported) (Statement.Alike .all) st.form.print st) :
    Recovers scope (Phrase resolve F) (Statement.Alike .all) st.print st := by
  intro tokens hspells
  rw [Statement.print_eq] at hspells
  cases hexported : st.exported with
  | false =>
    rw [hexported] at hone hspells
    obtain ⟨read, hread, halike⟩ := hone _ hspells
    exact ⟨read, hplain _ _ hread, halike⟩
  | true =>
    rw [hexported] at hone hspells
    obtain _ | ⟨hexporter, hrest⟩ := hspells
    obtain ⟨read, hread, halike⟩ := hone _ hrest
    exact ⟨read, hexport _ _ _ hexporter.keyword? hread, halike⟩

/-- What cannot be exported has one rule of the grammar for each rule of well-formedness. -/
theorem recovers_plain {F : Bool → List Token → Statement → Prop} {form : Form}
    (hform : form.WellFormed setting scope) (hplain : ¬ form.IsExport) {tokens : List Token}
    (hspells : List.Forall₂ (Spells scope) tokens form.print) :
    ∃ first form', Phrase resolve F tokens (statementAt first form' false) ∧
      first.scope = scope ∧ form'.Alike .all form := by
  have hnames := h.names
  cases hform with
  | function | useModule | useFile => exact absurd trivial hplain
  | call hcall =>
    rw [Form.print] at hspells
    obtain ⟨call, hphrase, halike⟩ := recovers_call hnames hcall _ hspells
    have hscope := Token.scope_of_spells hspells
    cases hphrase with
    | mk hname hopening hargs =>
      exact ⟨_, _, .call (.mk hname hopening hargs), hscope _ List.mem_cons_self, .call halike⟩
  | access haccess =>
    rw [Form.print] at hspells
    obtain ⟨access, hphrase, halike⟩ := recovers_access hnames haccess _ hspells
    have hscope := Token.scope_of_spells hspells
    cases hphrase with
    | field hname hdot hfield =>
      exact ⟨_, _, .access (.field hname hdot hfield), hscope _ List.mem_cons_self, .access halike⟩
    | call hname hdot hfield hopening hargs =>
      exact ⟨_, _, .access (.call hname hdot hfield hopening hargs), hscope _ List.mem_cons_self,
        .access halike⟩
  | declare hname hvalue =>
    rw [Form.print] at hspells
    obtain _ | ⟨hkeyword, _ | ⟨hword, _ | ⟨hequal, hrest⟩⟩⟩ := hspells
    obtain ⟨value, hphrase, halike⟩ := recovers_value hnames hvalue _ hrest
    refine ⟨_, _, .declare hkeyword.keyword? (hword.isName (hnames _ hname)) hequal.kind hphrase,
      hkeyword.scope, ?_⟩
    rw [hword.lexeme]
    exact .declare halike
  | assign hname hvalue =>
    rw [Form.print] at hspells
    obtain _ | ⟨hword, _ | ⟨hequal, hrest⟩⟩ := hspells
    obtain ⟨value, hphrase, halike⟩ := recovers_value hnames hvalue _ hrest
    refine ⟨_, _, .assign (hword.isName (hnames _ hname)) hequal.kind hphrase, hword.scope, ?_⟩
    rw [hword.lexeme]
    exact .assign halike
  | assignField hmap hfield hvalue =>
    rw [Form.print] at hspells
    obtain _ | ⟨hword, _ | ⟨hdot, _ | ⟨hsecond, _ | ⟨hequal, hrest⟩⟩⟩⟩ := hspells
    obtain ⟨value, hphrase, halike⟩ := recovers_value hnames hvalue _ hrest
    refine ⟨_, _, .assignField (hword.isName (hnames _ hmap)) hdot.kind
      (hsecond.isName (hnames _ hfield)) hequal.kind hphrase, hword.scope, ?_⟩
    rw [hword.lexeme, hsecond.lexeme]
    exact .assign halike
  | returns hvalue =>
    rw [Form.print] at hspells
    obtain _ | ⟨hkeyword, hrest⟩ := hspells
    obtain ⟨value, hphrase, halike⟩ := recovers_value hnames hvalue _ hrest
    exact ⟨_, _, .returns hkeyword.keyword? (by simp [hkeyword.scope]) hphrase, hkeyword.scope,
      .returns halike⟩

/-- A well-formed statement is recovered, if its function is when it declares one. -/
theorem recovers_phrase {F : Bool → List Token → Statement → Prop}
    (hst : st.WellFormed setting scope) (hfree : st.form.FileFree)
    (hfunction : ∀ declaration, st.form = .function declaration →
      Recovers scope (F st.exported) (Statement.Alike .all) st.form.print st) :
    Recovers scope (Phrase resolve F) (Statement.Alike .all) st.print st := by
  cases hst with
  | mk hscope hexported hwell =>
    cases hform : st.form with
    | function declaration =>
      exact recovers_export (fun _ _ => .function) (fun _ _ _ => .exportsFunction)
        (hfunction declaration hform)
    | useModule module =>
      rw [hform] at hwell
      cases hwell with
      | useModule hknown =>
        exact recovers_export (fun _ _ => .imports) (fun _ _ _ => .exportsImport)
          (h.recovers_import hform hknown hscope)
    | useFile file program =>
      rw [hform] at hfree
      cases hfree _ (mem_forms_self _)
    | _ =>
      have hplain : ¬ st.form.IsExport := by
        rw [hform]
        exact id
      have hexported : st.exported = false := Bool.eq_false_iff.mpr fun h => hplain (hexported h)
      intro tokens hspells
      rw [Statement.print_eq, hexported] at hspells
      obtain ⟨first, form, hphrase, hfirst, halike⟩ := h.recovers_plain hwell hplain hspells
      exact ⟨_, hphrase, .mk halike trivial (hfirst.trans hscope.symm) hexported.symm⟩

omit h in
theorem recovers_sequence {One : List Token → Statement → Prop} {statements : List Statement}
    (hone : ∀ st ∈ statements, Recovers scope One (Statement.Alike .all) st.print st) :
    Recovers scope (Sequence One) (List.Forall₂ (Statement.Alike .all)) (printAll statements)
      statements := by
  intro tokens hspells
  induction statements generalizing tokens with
  | nil =>
    cases hspells
    exact ⟨[], .nil, .nil⟩
  | cons st statements ih =>
    rw [printAll] at hspells
    obtain ⟨first, rest, rfl, hfirst, hrest⟩ := exists_of_forall₂_append_right hspells
    obtain ⟨hst, hstatements⟩ := List.forall_mem_cons.mp hone
    obtain ⟨read, hread, halike⟩ := hst _ hfirst
    obtain ⟨reads, hreads, halikes⟩ := ih hstatements _ hrest
    exact ⟨read :: reads, .cons hread hreads, .cons halike halikes⟩

theorem recovers_body {program : Program} (hprogram : program.WellFormed setting (some function))
    (hfree : program.FileFree) :
    Recovers (some function) (Sequence (Phrase resolve NoFunction))
      (List.Forall₂ (Statement.Alike .all)) (printAll program.statements) program.statements := by
  cases hprogram with
  | mk hstatements himports =>
    apply recovers_sequence
    intro st hst
    apply h.recovers_phrase (hstatements st hst) (hfree st hst)
    -- Functions stand at the top level only.
    intro declaration hform
    cases hstatements st hst with
    | mk _ _ hwell =>
      rw [hform] at hwell
      cases hwell

/-- Programs whose statements are recovered have the same import table. -/
theorem alike_of_statements {program : Program} (hprogram : program.WellFormed setting scope)
    {statements : List Statement}
    (halike : List.Forall₂ (Statement.Alike .all) statements program.statements) :
    (ofStatements statements).Alike .all program := by
  rw [h.definite.eq_ofStatements hprogram]
  exact alike_ofStatements halike

theorem recovers_function {declaration : Declaration} (hform : st.form = .function declaration)
    (hst : st.WellFormed setting none) (hfree : st.form.FileFree) :
    Recovers none (Function resolve setting.file st.exported) (Statement.Alike .all)
      st.form.print st := by
  intro tokens hspells
  rw [hform, Form.print, Declaration.print_eq] at hspells
  rw [hform] at hfree
  cases hst with
  | mk hscope hexported hwell =>
    rw [hform] at hwell
    cases hwell with
    | function hname hparams hdistinct hbody hfile =>
      obtain _ | ⟨hkeyword, _ | ⟨hword, _ | ⟨hopening, hrest⟩⟩⟩ := hspells
      obtain ⟨list, _, rfl, hlist, hrest⟩ := exists_of_forall₂_append_right hrest
      obtain _ | ⟨hbrace, hrest⟩ := hrest
      obtain ⟨inner, _, rfl, hinner, hrest⟩ := exists_of_forall₂_append_right hrest
      obtain _ | ⟨hclose, _ | _⟩ := hrest
      obtain ⟨params, hlisted, hsame⟩ := recovers_listed
        (fun param hparam => recovers_parameter h.names (hparams param hparam)) _ hlist
      rw [List.forall₂_eq_eq_eq] at hsame
      subst hsame
      have hlexeme : _ = declaration.name := hword.lexeme
      rw [← hlexeme] at hbody
      obtain ⟨statements, hsequence, halike⟩ :=
        h.recovers_body hbody hfree.body _ (Token.forall₂_spells_inBody _ hinner)
      refine ⟨_, .mk hkeyword.keyword? hkeyword.scope (hword.isName (h.names _ hname)) hopening.kind
        hlisted hdistinct hbrace.kind hsequence hclose.kind, ?_⟩
      refine .mk ?_ trivial (hkeyword.scope.trans hscope.symm) rfl
      rw [hform]
      exact .function (.mk hlexeme rfl (h.alike_of_statements hbody halike) trivial hfile.symm)

/-- What is printed for a well-formed program is read as the program. -/
theorem recovers_program {program : Program} (hprogram : program.WellFormed setting none)
    (hfree : program.FileFree) {tokens : List Token}
    (hspells : List.Forall₂ (Spells none) tokens program.print) :
    ∃ read, ofTokens resolve setting.file tokens = .ok read ∧ read.Alike .all program := by
  rw [Program.print_eq] at hspells
  cases hprogram with
  | mk hstatements himports =>
    have hone : ∀ st ∈ program.statements, Recovers none
        (Phrase resolve (Function resolve setting.file)) (Statement.Alike .all) st.print st :=
      fun st hst => h.recovers_phrase (hstatements st hst) (hfree st hst) fun _ hform =>
        h.recovers_function hform (hstatements st hst) (hfree st hst)
    obtain ⟨statements, hsentences, halike⟩ := recovers_sequence hone _ hspells
    exact ⟨_, ofTokens_eq_ok_iff.mpr ⟨statements, rfl, hsentences⟩,
      h.alike_of_statements (.mk hstatements himports) halike⟩

end Readable

end Program.Grammar

/-! ## Scopes and import tables -/

/-- The call with the scope on its arguments. -/
def Call.tagged (scope : Option String) (call : Call) : Call :=
  { call with args := call.args.map fun token => { token with scope } }

/-- The field with the scope on its arguments. -/
def Access.tagged (scope : Option String) (access : Access) : Access :=
  { access with args := access.args.map (List.map fun token => { token with scope }) }

/-- The value with the scope on its tokens. -/
def Expr.tagged (scope : Option String) : Expr → Expr
  | .literal token => .literal { token with scope }
  | .reference token => .reference { token with scope }
  | .call c => .call (c.tagged scope)
  | .access a => .access (a.tagged scope)

mutual

/-- The form with the scope on its tokens. The body of a function gets the function's name. -/
def Form.tagged (scope : Option String) : Form → Form
  | .function declaration => .function declaration.tagged
  | .call c => .call (c.tagged scope)
  | .access a => .access (a.tagged scope)
  | .declare name value => .declare name (value.tagged scope)
  | .assign target value => .assign target (value.tagged scope)
  | .returns value => .returns (value.tagged scope)
  | .useModule module => .useModule module
  | .useFile file program => .useFile file program

/-- The statement with the scope on it and its tokens. -/
def Statement.tagged (scope : Option String) : Statement → Statement
  | { form, span, exported, .. } => { form := form.tagged scope, span, scope, exported }

/-- The program with the scope on its statements and with the table of what they import. -/
def Program.tagged (scope : Option String) : Program → Program
  | { statements, .. } => .ofStatements (taggedAll scope statements)

/-- The function with its name on the statements of its body. -/
def Declaration.tagged : Declaration → Declaration
  | { name, params, body, span, file } =>
    { name, params, body := body.tagged (some name), span, file }

/-- The statements with the scope on them. -/
def taggedAll (scope : Option String) : List Statement → List Statement
  | [] => []
  | first :: rest => first.tagged scope :: taggedAll scope rest

end

/-! Scopes are not printed, and no import turns into one of a file. -/

theorem Call.print_tagged (scope : Option String) (call : Call) :
    (call.tagged scope).print = call.print := by
  simp [Call.print, Call.tagged, listedArguments, Token.bare, Function.comp_def]

theorem Access.print_tagged (scope : Option String) (access : Access) :
    (access.tagged scope).print = access.print := by
  obtain ⟨module, field, args, span⟩ := access
  cases args <;>
    simp [Access.print, Access.tagged, listedArguments, Token.bare, Function.comp_def]

theorem Expr.print_tagged (scope : Option String) (value : Expr) :
    (value.tagged scope).print = value.print := by
  cases value with
  | literal | reference => rfl
  | call c => exact c.print_tagged scope
  | access a => exact a.print_tagged scope

-- The induction is on the syntax; both equations go down into bodies in the same way.
mutual

theorem Form.print_tagged (scope : Option String) : (form : Form) →
    (form.tagged scope).print = form.print ∧
      (form.tagged scope).forms.map Form.isFile = form.forms.map Form.isFile
  | .function declaration => by
    obtain ⟨hprint, hforms⟩ := declaration.print_tagged
    simp only [Form.tagged, Form.print, Form.forms, Form.isFile, List.map_cons, hprint, hforms,
      and_self]
  | .call c => by simp [Form.tagged, Form.print, Form.forms, Form.isFile, Call.print_tagged]
  | .access a => by simp [Form.tagged, Form.print, Form.forms, Form.isFile, Access.print_tagged]
  | .declare name value => by
    simp [Form.tagged, Form.print, Form.forms, Form.isFile, Expr.print_tagged]
  | .assign (.var name) value | .assign (.field map field) value => by
    simp [Form.tagged, Form.print, Form.forms, Form.isFile, Expr.print_tagged]
  | .returns value => by simp [Form.tagged, Form.print, Form.forms, Form.isFile, Expr.print_tagged]
  | .useModule module => by simp [Form.tagged]
  | .useFile file program => by simp [Form.tagged]

theorem Statement.print_tagged (scope : Option String) : (st : Statement) →
    (st.tagged scope).print = st.print ∧
      (st.tagged scope).forms.map Form.isFile = st.forms.map Form.isFile
  | { form, span, exported, .. } => by
    obtain ⟨hprint, hforms⟩ := form.print_tagged scope
    simp [Statement.tagged, Statement.print, hprint, hforms]

theorem Program.print_tagged (scope : Option String) : (program : Program) →
    (program.tagged scope).print = program.print ∧
      (program.tagged scope).forms.map Form.isFile = program.forms.map Form.isFile
  | { statements, .. } => by
    obtain ⟨hprint, hforms⟩ := printAll_tagged scope statements
    simp [Program.tagged, Program.print, Program.ofStatements, hprint, hforms]

theorem Declaration.print_tagged : (declaration : Declaration) →
    declaration.tagged.print = declaration.print ∧
      declaration.tagged.forms.map Form.isFile = declaration.forms.map Form.isFile
  | { name, params, body, span, file } => by
    obtain ⟨hprint, hforms⟩ := body.print_tagged (some name)
    simp only [Declaration.tagged, Declaration.print, Declaration.forms, hprint, hforms, and_self]

theorem printAll_tagged (scope : Option String) : (statements : List Statement) →
    printAll (taggedAll scope statements) = printAll statements ∧
      (formsOf (taggedAll scope statements)).map Form.isFile = (formsOf statements).map Form.isFile
  | [] => by simp [taggedAll]
  | first :: rest => by
    obtain ⟨hfirst, hforms⟩ := first.print_tagged scope
    obtain ⟨hrest, hmore⟩ := printAll_tagged scope rest
    simp only [taggedAll, printAll, formsOf, List.map_append, hfirst, hforms, hrest, hmore,
      and_self]

end

theorem Program.fileFree_iff {program : Program} :
    program.FileFree ↔ ∀ isFile ∈ program.forms.map Form.isFile, isFile = false := by
  simp only [Program.FileFree, Form.FileFree, Program.forms_eq, List.forall_mem_map, mem_formsOf]
  constructor
  · rintro h form ⟨st, hst, hform⟩
    exact h st hst form hform
  · exact fun h st hst form hform => h form ⟨st, hst, hform⟩

/-! ## Printed programs -/

/-- What programs may consist of to be printed for the loader: names are not reserved, and modules
are what an import of their name stands for. -/
def Loader.printable (loader : Loader) : Setting where
  names name := Keyword.ofText? name = none
  known module := loader.registry.resolve? module.name = some module ∧
    loader.fileAt? module.name = none
  file := loader.file

theorem Loader.readable_printable (loader : Loader) :
    Program.Grammar.Readable loader.resolve loader.printable where
  names _ h := h
  known module h target htarget := by
    rw [resolve, htarget, h.1, h.2]

/-- What is printed for a program that is well-formed, once its statements have their scopes and its
parts their import tables, is read as the program with these scopes and tables. -/
theorem ofTokens_of_print {loader : Loader} {program : Program} {tokens : List Token}
    (hfree : program.FileFree) (hwell : (program.tagged none).WellFormed loader.printable none)
    (hprint : tokens.map Token.bare = program.print)
    (hscope : ∀ token ∈ tokens, token.scope = none) :
    ∃ read, loader.ofTokens tokens = .ok read ∧ read.Alike .all (program.tagged none) ∧
      read.WellFormed (loader.setting tokens) none := by
  obtain ⟨hsame, hfiles⟩ := program.print_tagged none
  have hfree : (program.tagged none).FileFree := by
    rw [Program.fileFree_iff, hfiles]
    exact Program.fileFree_iff.mp hfree
  have hspells : List.Forall₂ (Token.Spells none) tokens (program.tagged none).print := by
    rw [hsame, ← hprint]
    exact Token.forall₂_spells hscope
  obtain ⟨read, hread, halike⟩ := loader.readable_printable.recovers_program hwell hfree hspells
  exact ⟨read, hread, halike,
    Loader.wellFormed_of_provides (loader.provides_resolve tokens) hscope hread⟩

/-- A function of two parameters that returns the second, as a statement without scopes. -/
def secondFunction : Statement where
  form := .function
    { name := "second"
      params := [{ name := "a", type := some .number }, { name := "b" }]
      body :=
        { statements :=
            [{ form := .returns (.reference (word "b")), span := {}, scope := none, exported := false }]
          imports := {} }
      span := {}
      file := none }
  span := {}
  scope := none
  exported := true

/-- A program that imports a module, declares the function and calls it. -/
def secondProgram : Program where
  statements :=
    [{ form := .useModule Library.Terminal.module, span := {}, scope := none, exported := false },
      secondFunction,
      { form := .declare "x" (.call { name := "second", args := [word "y", quoted "z"], span := {} })
        span := {}
        scope := none
        exported := false }]
  imports := {}

theorem ofTokens_of_print_second : ∃ read,
    standardLoader.ofTokens secondProgram.print = .ok read ∧
      secondProgram.FileFree ∧ (secondProgram.tagged none).WellFormed standardLoader.printable none ∧
      secondProgram.print.length = 25 ∧ read.Alike .all (secondProgram.tagged none) := by
  have hdefinite := standardLoader.readable_printable.definite
  have hmodule : standardLoader.printable.known Library.Terminal.module := ⟨rfl, rfl⟩
  have hfunction : (secondFunction.tagged none).WellFormed standardLoader.printable none := by
    refine .mk rfl (fun _ => trivial) (.function rfl ?_ (by decide) (hdefinite.ofStatements ?_) rfl)
    · exact List.forall_mem_cons.mpr ⟨rfl, List.forall_mem_singleton.mpr rfl⟩
    · exact List.forall_mem_singleton.mpr (.mk rfl nofun (.returns (.reference rfl rfl rfl)))
  have hwell : (secondProgram.tagged none).WellFormed standardLoader.printable none := by
    refine hdefinite.ofStatements (List.forall_mem_cons.mpr ⟨?_, List.forall_mem_cons.mpr
      ⟨hfunction, List.forall_mem_singleton.mpr ?_⟩⟩)
    · exact .mk rfl nofun (.useModule hmodule)
    · refine .mk rfl nofun (.declare rfl (.call ⟨rfl, ?_⟩))
      exact List.forall_mem_cons.mpr ⟨⟨rfl, .inr ⟨rfl, rfl⟩⟩,
        List.forall_mem_singleton.mpr ⟨rfl, .inl rfl⟩⟩
  have hfree : secondProgram.FileFree := by decide
  have hprint : secondProgram.print.map Token.bare = secondProgram.print := rfl
  have hscope : ∀ token ∈ secondProgram.print, token.scope = none := by decide
  obtain ⟨read, hread, halike, -⟩ := ofTokens_of_print hfree hwell hprint hscope
  exact ⟨read, hread, hfree, hwell, rfl, halike⟩

end Scripting
