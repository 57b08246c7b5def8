import Mathlib.Data.List.Forall2
import Scripting.Proofs.Reading

/-!
# Programs that differ in places

The same statements can stand at different places: on their own or behind other text. Two tokens,
two statements or two programs are alike if they are the same but for their places, and the places
of one correspond to those of the other. What corresponds is left open by a `Correspondence`, which
also says which modules may be imported. The grammar does not see places, so like tokens write like
statements.
-/

namespace Scripting

/-- Which places of one text correspond to which places of another one, and which modules may be
imported in both. -/
structure Correspondence where
  span : Span → Span → Prop
  module : Module → Prop

/-- All places correspond to one another, and all modules may be imported. -/
def Correspondence.all : Correspondence where
  span _ _ := True
  module _ := True

/-! ## The relation -/

section Parts

variable (c : Correspondence)

/-- The tokens are the same but for their places. -/
structure Token.Alike (token other : Token) : Prop where
  kind : token.kind = other.kind
  lexeme : token.lexeme = other.lexeme
  scope : token.scope = other.scope
  span : c.span token.span other.span

/-- The calls are the same but for places. -/
structure Call.Alike (call other : Call) : Prop where
  name : call.name = other.name
  args : List.Forall₂ (Token.Alike c) call.args other.args
  span : c.span call.span other.span

/-- The fields are the same but for places. -/
structure Access.Alike (access other : Access) : Prop where
  module : access.module = other.module
  field : access.field = other.field
  args : Option.Rel (List.Forall₂ (Token.Alike c)) access.args other.args
  span : c.span access.span other.span

/-- The values are the same but for places. -/
inductive Expr.Alike : Expr → Expr → Prop
  | literal {token other : Token} (h : token.Alike c other) :
      Expr.Alike (.literal token) (.literal other)
  | reference {token other : Token} (h : token.Alike c other) :
      Expr.Alike (.reference token) (.reference other)
  | call {call other : Call} (h : call.Alike c other) : Expr.Alike (.call call) (.call other)
  | access {access other : Access} (h : access.Alike c other) :
      Expr.Alike (.access access) (.access other)

mutual

/-- The forms are the same but for places. -/
inductive Form.Alike : Form → Form → Prop
  | function {declaration other : Declaration} (h : Declaration.Alike declaration other) :
      Form.Alike (.function declaration) (.function other)
  | call {call other : Call} (h : call.Alike c other) : Form.Alike (.call call) (.call other)
  | access {access other : Access} (h : access.Alike c other) :
      Form.Alike (.access access) (.access other)
  | declare {name : String} {value other : Expr} (h : value.Alike c other) :
      Form.Alike (.declare name value) (.declare name other)
  | assign {target : Target} {value other : Expr} (h : value.Alike c other) :
      Form.Alike (.assign target value) (.assign target other)
  | returns {value other : Expr} (h : value.Alike c other) :
      Form.Alike (.returns value) (.returns other)
  | useModule {module : Module} (h : c.module module) :
      Form.Alike (.useModule module) (.useModule module)
  | useFile {file : SourceFile} {program other : Program} (h : Program.Alike program other) :
      Form.Alike (.useFile file program) (.useFile file other)

/-- The statements are the same but for places. -/
inductive Statement.Alike : Statement → Statement → Prop
  | mk {st other : Statement} (hform : Form.Alike st.form other.form)
      (hspan : c.span st.span other.span) (hscope : st.scope = other.scope)
      (hexported : st.exported = other.exported) : Statement.Alike st other

/-- The programs are the same but for places, and import nothing but what may be imported. -/
inductive Program.Alike : Program → Program → Prop
  | mk {program other : Program}
      (hstatements : List.Forall₂ Statement.Alike program.statements other.statements)
      (himports : program.imports = other.imports)
      (hmodules : ∀ module ∈ program.imports.modules, c.module module) : Program.Alike program other

/-- The functions are the same but for places. -/
inductive Declaration.Alike : Declaration → Declaration → Prop
  | mk {declaration other : Declaration} (hname : declaration.name = other.name)
      (hparams : declaration.params = other.params)
      (hbody : Program.Alike declaration.body other.body)
      (hspan : c.span declaration.span other.span) (hfile : declaration.file = other.file) :
      Declaration.Alike declaration other

end

end Parts

variable {c : Correspondence}

/-! ## Programs -/

/-- Like forms import the same module, one that may be imported. -/
theorem Form.Alike.module?_eq {form other : Form} (h : form.Alike c other) :
    form.module? = other.module? ∧ ∀ module ∈ form.module?, c.module module := by
  cases h with
  | useModule h => exact ⟨rfl, fun module hmodule => by cases hmodule; exact h⟩
  | _ => exact ⟨rfl, nofun⟩

/-- Like statements make like programs. -/
theorem Program.alike_ofStatements {statements others : List Statement}
    (h : List.Forall₂ (Statement.Alike c) statements others) :
    (ofStatements statements).Alike c (ofStatements others) := by
  have hmodules : statements.filterMap (·.form.module?) = others.filterMap (·.form.module?) ∧
      ∀ module ∈ statements.filterMap (·.form.module?), c.module module := by
    induction h with
    | nil => simp
    | cons hfirst _ ih =>
      cases hfirst with
      | mk hform =>
        obtain ⟨heq, hallowed⟩ := hform.module?_eq
        simp only [List.filterMap_cons, ← heq]
        split
        · exact ih
        · next module hmodule =>
          rw [ih.1]
          exact ⟨rfl, List.forall_mem_cons.mpr ⟨hallowed module hmodule, ih.1 ▸ ih.2⟩⟩
  refine .mk h ?_ fun module hmodule => ?_
  · simp only [ofStatements, hmodules.1]
  · exact hmodules.2 module ((ImportTable.mem_foldl_insert hmodule).resolve_left List.not_mem_nil)

/-! ## Tokens -/

namespace Token.Alike

variable {token other : Token}

theorem keyword?_eq (h : token.Alike c other) : token.keyword? = other.keyword? := by
  unfold keyword?
  rw [h.kind, h.lexeme]

theorem isName_eq (h : token.Alike c other) : token.isName = other.isName := by
  unfold isName
  rw [h.kind, h.keyword?_eq]

theorem inBody (h : token.Alike c other) (name : String) :
    (token.inBody name).Alike c (other.inBody name) :=
  ⟨h.kind, h.lexeme, rfl, h.span⟩

end Token.Alike

theorem Token.forall₂_inBody {tokens others : List Token}
    (h : List.Forall₂ (Token.Alike c) tokens others) (name : String) :
    List.Forall₂ (Token.Alike c) (tokens.map (Token.inBody name))
      (others.map (Token.inBody name)) := by
  rw [List.forall₂_map_left_iff, List.forall₂_map_right_iff]
  exact h.imp fun _ _ h => h.inBody name

theorem exists_of_forall₂_append {α β : Type} {R : α → β → Prop} {xs ys : List α} {zs : List β}
    (h : List.Forall₂ R (xs ++ ys) zs) :
    ∃ us vs, zs = us ++ vs ∧ List.Forall₂ R xs us ∧ List.Forall₂ R ys vs := by
  induction xs generalizing zs with
  | nil => exact ⟨[], zs, rfl, .nil, h⟩
  | cons x xs ih =>
    obtain _ | ⟨hu, hrest⟩ := h
    obtain ⟨us, vs, rfl, hus, hvs⟩ := ih hrest
    exact ⟨_ :: us, vs, rfl, .cons hu hus, hvs⟩

theorem exists_of_forall₂_append_right {α β : Type} {R : α → β → Prop} {xs : List α}
    {ys zs : List β} (h : List.Forall₂ R xs (ys ++ zs)) :
    ∃ us vs, xs = us ++ vs ∧ List.Forall₂ R us ys ∧ List.Forall₂ R vs zs := by
  obtain ⟨us, vs, rfl, hus, hvs⟩ := exists_of_forall₂_append h.flip
  exact ⟨us, vs, rfl, hus.flip, hvs.flip⟩

/-! ## Phrases -/

namespace Program.Grammar

open Scripting.Program.Parser (statementAt)

/-- What the relation takes for an item can be exchanged for like tokens, and yields a like item. -/
def Placeless {α : Type} (c : Correspondence) (One : List Token → α → Prop) (Q : α → α → Prop) :
    Prop :=
  ∀ tokens item others, One tokens item → List.Forall₂ (Token.Alike c) tokens others →
    ∃ item', One others item' ∧ Q item item'

theorem placeless_argument : Placeless c Argument (Token.Alike c) := by
  intro tokens token others h halike
  cases h with
  | literal hkind =>
    obtain _ | ⟨hother, _ | _⟩ := halike
    exact ⟨_, .literal (hother.kind ▸ hkind), hother⟩
  | name hname =>
    obtain _ | ⟨hother, _ | _⟩ := halike
    exact ⟨_, .name (hother.isName_eq ▸ hname), hother⟩

theorem placeless_parameter : Placeless c Parameter Eq := by
  intro tokens param others h halike
  cases h with
  | plain hname =>
    obtain _ | ⟨hlike, _ | _⟩ := halike
    exact ⟨_, .plain (hlike.isName_eq ▸ hname), by rw [hlike.lexeme]⟩
  | typed hname hcolon htype =>
    obtain _ | ⟨hlike, _ | ⟨hcolons, _ | ⟨htypes, _ | _⟩⟩⟩ := halike
    exact ⟨_, .typed (hlike.isName_eq ▸ hname) (hcolons.kind ▸ hcolon) (htypes.lexeme ▸ htype),
      by rw [hlike.lexeme]⟩

section Items

variable {α : Type} {Item : List Token → α → Prop} {Q : α → α → Prop}

theorem placeless_items (hitem : Placeless c Item Q) :
    Placeless c (Items Item) (List.Forall₂ Q) := by
  intro tokens items others h halike
  induction h generalizing others with
  | last h hclose =>
    obtain ⟨us, _, rfl, hus, hrest⟩ := exists_of_forall₂_append halike
    obtain _ | ⟨hlike, _ | _⟩ := hrest
    obtain ⟨item, hone, hQ⟩ := hitem _ _ _ h hus
    exact ⟨[item], .last hone (hlike.kind ▸ hclose), .cons hQ .nil⟩
  | more h hcomma _ ih =>
    obtain ⟨us, _, rfl, hus, hrest⟩ := exists_of_forall₂_append halike
    obtain _ | ⟨hlike, hvs⟩ := hrest
    obtain ⟨item, hone, hQ⟩ := hitem _ _ _ h hus
    obtain ⟨items, hitems, hQs⟩ := ih _ hvs
    exact ⟨item :: items, .more hone (hlike.kind ▸ hcomma) hitems, .cons hQ hQs⟩

theorem placeless_listed (hitem : Placeless c Item Q) :
    Placeless c (Listed Item) (List.Forall₂ Q) := by
  intro tokens items others h halike
  cases h with
  | none hclose =>
    obtain _ | ⟨hlike, _ | _⟩ := halike
    exact ⟨[], .none (hlike.kind ▸ hclose), .nil⟩
  | some hitems =>
    obtain ⟨items, hitems, hQ⟩ := placeless_items hitem _ _ _ hitems halike
    exact ⟨items, .some hitems, hQ⟩

end Items

theorem placeless_call : Placeless c CallPhrase (Call.Alike c) := by
  intro tokens call others h halike
  cases h with
  | mk hname hopening hargs =>
    obtain _ | ⟨hnames, _ | ⟨hopenings, hlist⟩⟩ := halike
    obtain ⟨args, hargs, halike⟩ := placeless_listed placeless_argument _ _ _ hargs hlist
    exact ⟨_, .mk (hnames.isName_eq ▸ hname) (hopenings.kind ▸ hopening) hargs,
      hnames.lexeme, halike, hnames.span⟩

theorem placeless_access : Placeless c AccessPhrase (Access.Alike c) := by
  intro tokens access others h halike
  cases h with
  | field hname hdot hfield =>
    obtain _ | ⟨hnames, _ | ⟨hdots, _ | ⟨hfields, _ | _⟩⟩⟩ := halike
    exact ⟨_, .field (hnames.isName_eq ▸ hname) (hdots.kind ▸ hdot) (hfields.isName_eq ▸ hfield),
      hnames.lexeme, hfields.lexeme, .none, hnames.span⟩
  | call hname hdot hfield hopening hargs =>
    obtain _ | ⟨hnames, _ | ⟨hdots, _ | ⟨hfields, _ | ⟨hopenings, hlist⟩⟩⟩⟩ := halike
    obtain ⟨args, hargs, halike⟩ := placeless_listed placeless_argument _ _ _ hargs hlist
    exact ⟨_, .call (hnames.isName_eq ▸ hname) (hdots.kind ▸ hdot) (hfields.isName_eq ▸ hfield)
      (hopenings.kind ▸ hopening) hargs, hnames.lexeme, hfields.lexeme, .some halike, hnames.span⟩

theorem placeless_value : Placeless c ValuePhrase (Expr.Alike c) := by
  intro tokens value others h halike
  cases h with
  | literal hkind =>
    obtain _ | ⟨hlike, _ | _⟩ := halike
    exact ⟨_, .literal (hlike.kind ▸ hkind), .literal hlike⟩
  | reference hname =>
    obtain _ | ⟨hlike, _ | _⟩ := halike
    exact ⟨_, .reference (hlike.isName_eq ▸ hname), .reference hlike⟩
  | call h =>
    obtain ⟨call, hcall, hlike⟩ := placeless_call _ _ _ h halike
    exact ⟨_, .call hcall, .call hlike⟩
  | access h =>
    obtain ⟨access, haccess, hlike⟩ := placeless_access _ _ _ h halike
    exact ⟨_, .access haccess, .access hlike⟩

/-- An import stands for the same form wherever it is written. -/
def Consistent (c : Correspondence) (resolve : Resolver) : Prop :=
  ∀ target other form, target.Alike c other → resolve target = .ok form →
    resolve other = .ok form ∧ form.Alike c form

theorem alike_statementAt {token other : Token} {form form' : Form} {exported : Bool}
    (htoken : token.Alike c other) (hform : form.Alike c form') :
    (statementAt token form exported).Alike c (statementAt other form' exported) :=
  .mk hform htoken.span htoken.scope rfl

variable {resolve : Resolver}

theorem placeless_import (hresolve : Consistent c resolve) (exported : Bool) :
    Placeless c (Import resolve exported) (Statement.Alike c) := by
  intro tokens st others h halike
  cases h with
  | mk hkeyword htarget hform =>
    obtain _ | ⟨hkeywords, _ | ⟨htargets, _ | _⟩⟩ := halike
    obtain ⟨hsame, hlike⟩ := hresolve _ _ _ htargets hform
    exact ⟨_, .mk (hkeywords.keyword?_eq ▸ hkeyword) (htargets.kind ▸ htarget) hsame,
      alike_statementAt hkeywords hlike⟩

theorem placeless_phrase (hresolve : Consistent c resolve)
    {F : Bool → List Token → Statement → Prop}
    (hfunction : ∀ exported, Placeless c (F exported) (Statement.Alike c)) :
    Placeless c (Phrase resolve F) (Statement.Alike c) := by
  intro tokens st others h halike
  cases h with
  | imports h =>
    obtain ⟨st, h, hlike⟩ := placeless_import hresolve _ _ _ _ h halike
    exact ⟨st, .imports h, hlike⟩
  | exportsImport hexporter h =>
    obtain _ | ⟨hexporters, hrest⟩ := halike
    obtain ⟨st, h, hlike⟩ := placeless_import hresolve _ _ _ _ h hrest
    exact ⟨st, .exportsImport (hexporters.keyword?_eq ▸ hexporter) h, hlike⟩
  | function h =>
    obtain ⟨st, h, hlike⟩ := hfunction _ _ _ _ h halike
    exact ⟨st, .function h, hlike⟩
  | exportsFunction hexporter h =>
    obtain _ | ⟨hexporters, hrest⟩ := halike
    obtain ⟨st, h, hlike⟩ := hfunction _ _ _ _ h hrest
    exact ⟨st, .exportsFunction (hexporters.keyword?_eq ▸ hexporter) h, hlike⟩
  | declare hkeyword hname hequal hvalue =>
    obtain _ | ⟨hkeywords, _ | ⟨hnames, _ | ⟨hequals, hrest⟩⟩⟩ := halike
    obtain ⟨value, hvalue, hlike⟩ := placeless_value _ _ _ hvalue hrest
    rw [hnames.lexeme]
    exact ⟨_, .declare (hkeywords.keyword?_eq ▸ hkeyword) (hnames.isName_eq ▸ hname)
      (hequals.kind ▸ hequal) hvalue, alike_statementAt hkeywords (.declare hlike)⟩
  | returns hkeyword hscope hvalue =>
    obtain _ | ⟨hkeywords, hrest⟩ := halike
    obtain ⟨value, hvalue, hlike⟩ := placeless_value _ _ _ hvalue hrest
    exact ⟨_, .returns (hkeywords.keyword?_eq ▸ hkeyword) (hkeywords.scope ▸ hscope) hvalue,
      alike_statementAt hkeywords (.returns hlike)⟩
  | call h =>
    obtain ⟨call, hcall, hlike⟩ := placeless_call _ _ _ h halike
    obtain _ | ⟨hnames, hrest⟩ := halike
    exact ⟨_, .call hcall, alike_statementAt hnames (.call hlike)⟩
  | access h =>
    obtain ⟨access, haccess, hlike⟩ := placeless_access _ _ _ h halike
    obtain _ | ⟨hnames, hrest⟩ := halike
    exact ⟨_, .access haccess, alike_statementAt hnames (.access hlike)⟩
  | assign hname hequal hvalue =>
    obtain _ | ⟨hnames, _ | ⟨hequals, hrest⟩⟩ := halike
    obtain ⟨value, hvalue, hlike⟩ := placeless_value _ _ _ hvalue hrest
    rw [hnames.lexeme]
    exact ⟨_, .assign (hnames.isName_eq ▸ hname) (hequals.kind ▸ hequal) hvalue,
      alike_statementAt hnames (.assign hlike)⟩
  | assignField hname hdot hfield hequal hvalue =>
    obtain _ | ⟨hnames, _ | ⟨hdots, _ | ⟨hfields, _ | ⟨hequals, hrest⟩⟩⟩⟩ := halike
    obtain ⟨value, hvalue, hlike⟩ := placeless_value _ _ _ hvalue hrest
    rw [hnames.lexeme, hfields.lexeme]
    exact ⟨_, .assignField (hnames.isName_eq ▸ hname) (hdots.kind ▸ hdot)
      (hfields.isName_eq ▸ hfield) (hequals.kind ▸ hequal) hvalue,
      alike_statementAt hnames (.assign hlike)⟩

theorem placeless_sequence {One : List Token → Statement → Prop}
    (hone : Placeless c One (Statement.Alike c)) :
    Placeless c (Sequence One) (List.Forall₂ (Statement.Alike c)) := by
  intro tokens statements others h halike
  induction h generalizing others with
  | nil =>
    cases halike
    exact ⟨[], .nil, .nil⟩
  | cons hfirst _ ih =>
    obtain ⟨us, vs, rfl, hus, hvs⟩ := exists_of_forall₂_append halike
    obtain ⟨st, hst, hlike⟩ := hone _ _ _ hfirst hus
    obtain ⟨statements, hrest, hlikes⟩ := ih _ hvs
    exact ⟨st :: statements, .cons hst hrest, .cons hlike hlikes⟩

theorem placeless_clause (hresolve : Consistent c resolve) :
    Placeless c (Phrase resolve NoFunction) (Statement.Alike c) :=
  placeless_phrase hresolve fun _ _ _ _ h => h.elim

theorem placeless_function (hresolve : Consistent c resolve) (file : Option SourceFile)
    (exported : Bool) : Placeless c (Function resolve file exported) (Statement.Alike c) := by
  intro tokens st others h halike
  cases h with
  | mk hkeyword hscope hname hopening hparams hdistinct hbrace hbody hclose =>
    obtain _ | ⟨hkeywords, _ | ⟨hnames, _ | ⟨hopenings, hrest⟩⟩⟩ := halike
    obtain ⟨list, block, rfl, hlist, hblock⟩ := exists_of_forall₂_append hrest
    obtain _ | ⟨hbraces, hafter⟩ := hblock
    obtain ⟨inner, ending, rfl, hinner, hending⟩ := exists_of_forall₂_append hafter
    obtain _ | ⟨hcloses, _ | _⟩ := hending
    obtain ⟨params, hparams, hsame⟩ := placeless_listed placeless_parameter _ _ _ hparams hlist
    rw [List.forall₂_eq_eq_eq] at hsame
    subst hsame
    rw [hnames.lexeme] at hbody
    obtain ⟨statements, hbody, hlikes⟩ :=
      placeless_sequence (placeless_clause hresolve) _ _ _ hbody (Token.forall₂_inBody hinner _)
    refine ⟨_, .mk (hkeywords.keyword?_eq ▸ hkeyword) (hkeywords.scope ▸ hscope)
      (hnames.isName_eq ▸ hname) (hopenings.kind ▸ hopening) hparams hdistinct
      (hbraces.kind ▸ hbrace) hbody (hcloses.kind ▸ hclose), alike_statementAt hkeywords ?_⟩
    exact .function (.mk hnames.lexeme rfl (alike_ofStatements hlikes) hnames.span rfl)

/-- Like tokens write like statements. -/
theorem placeless_sentences (hresolve : Consistent c resolve) (file : Option SourceFile) :
    Placeless c (Sentences resolve file) (List.Forall₂ (Statement.Alike c)) :=
  placeless_sequence (placeless_phrase hresolve (placeless_function hresolve file))

end Program.Grammar

end Scripting
