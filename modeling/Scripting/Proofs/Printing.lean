import Mathlib.Data.List.Chain
import Mathlib.Tactic.Tauto
import Scripting.Proofs.WellFormed

/-!
# Printing programs

A program is printed as the tokens of its statements, one statement after another with nothing
between them. Places and scopes are not printed.

The main result here is that what reads as a program is printed for it, token by token, but for two
liberties that a reader takes: a mark of punctuation counts by its kind alone, and the type of a
parameter by its spelling alone. The argument goes through the grammar, rule by rule.
-/

namespace Scripting

/-! ## Printing -/

namespace Token

/-- The token without its place and its scope. -/
def bare (token : Token) : Token :=
  { kind := token.kind, lexeme := token.lexeme }

/-- A word. -/
def word (text : String) : Token :=
  { kind := .identifier, lexeme := text }

/-- A reserved word. -/
def reserved (keyword : Keyword) : Token :=
  word keyword.text

/-- A string. -/
def quoted (text : String) : Token :=
  { kind := .string, lexeme := text }

/-- A mark of punctuation. -/
def mark (kind : TokenKind) : Token :=
  { kind, lexeme := kind.text }

/-- Items with commas between them, up to and including the closing parenthesis. -/
def listed : List (List Token) → List Token
  | [] => [mark .rightParen]
  | [item] => item ++ [mark .rightParen]
  | item :: items => item ++ mark .comma :: listed items

/-- What follows the opening parenthesis of a call. -/
def listedArguments (args : List Token) : List Token :=
  listed (args.map fun token => [token.bare])

end Token

open Token (word reserved quoted mark listed listedArguments)

/-- A parameter with its type, if it has one. -/
def Param.print (param : Param) : List Token :=
  match param.type with
  | none => [word param.name]
  | some type => [word param.name, mark .colon, word type.text]

/-- A call with its arguments. -/
def Call.print (call : Call) : List Token :=
  word call.name :: mark .leftParen :: listedArguments call.args

/-- A field, with its arguments if it is called. -/
def Access.print (access : Access) : List Token :=
  match access.args with
  | none => [word access.module, mark .dot, word access.field]
  | some args =>
    word access.module :: mark .dot :: word access.field :: mark .leftParen :: listedArguments args

/-- A value. -/
def Expr.print : Expr → List Token
  | .literal token | .reference token => [token.bare]
  | .call c => c.print
  | .access a => a.print

mutual

/-- What a statement does. The path of an imported file stands for the name that led to it. -/
def Form.print : Form → List Token
  | .function declaration => declaration.print
  | .call c => c.print
  | .access a => a.print
  | .declare name value => reserved .declares :: word name :: mark .equal :: value.print
  | .assign (.var name) value => word name :: mark .equal :: value.print
  | .assign (.field map field) value =>
    word map :: mark .dot :: word field :: mark .equal :: value.print
  | .returns value => reserved .returns :: value.print
  | .useModule module => [reserved .imports, quoted module.name]
  | .useFile file _ => [reserved .imports, quoted file.path]

/-- A statement, exported or not. -/
def Statement.print : Statement → List Token
  | { form, exported, .. } => (if exported then [reserved .exports] else []) ++ form.print

/-- The statements of a program. -/
def Program.print : Program → List Token
  | { statements, .. } => printAll statements

/-- A function with its body. -/
def Declaration.print : Declaration → List Token
  | { name, params, body, .. } =>
    reserved .function :: word name :: mark .leftParen ::
      (listed (params.map Param.print) ++ mark .leftBrace :: (body.print ++ [mark .rightBrace]))

/-- Statements, one after another. -/
def printAll : List Statement → List Token
  | [] => []
  | first :: rest => first.print ++ printAll rest

end

theorem Statement.print_eq (st : Statement) :
    st.print = (if st.exported then [reserved .exports] else []) ++ st.form.print := by
  cases st
  rw [Statement.print]

theorem Program.print_eq (program : Program) : program.print = printAll program.statements := by
  cases program
  rw [Program.print]

theorem Declaration.print_eq (declaration : Declaration) :
    declaration.print = reserved .function :: word declaration.name :: mark .leftParen ::
      (listed (declaration.params.map Param.print) ++
        mark .leftBrace :: (printAll declaration.body.statements ++ [mark .rightBrace])) := by
  cases declaration
  rw [Declaration.print, Program.print_eq]

/-- Whether the form imports a file. -/
def Form.isFile : Form → Bool
  | .useFile _ _ => true
  | _ => false

/-- The form imports no file, and neither does any form inside it. -/
def Form.FileFree (form : Form) : Prop :=
  ∀ inner ∈ form.forms, inner.isFile = false

/-- No statement of the program, in whatever body, imports a file. -/
def Program.FileFree (program : Program) : Prop :=
  ∀ st ∈ program.statements, st.form.FileFree

instance (form : Form) : Decidable form.FileFree :=
  inferInstanceAs (Decidable (∀ inner ∈ form.forms, inner.isFile = false))

instance (program : Program) : Decidable program.FileFree :=
  inferInstanceAs (Decidable (∀ st ∈ program.statements, st.form.FileFree))

theorem Form.FileFree.body {declaration : Declaration}
    (h : Form.FileFree (.function declaration)) : declaration.body.FileFree := by
  intro st hst form hform
  apply h
  rw [Form.forms, Declaration.forms_eq]
  exact List.mem_cons_of_mem _ (mem_formsOf.mpr ⟨st, hst, hform⟩)

/-! ## What is read prints back -/

theorem Keyword.text_of_ofText? {word : String} {keyword : Keyword}
    (h : Keyword.ofText? word = some keyword) : word = keyword.text := by
  unfold ofText? at h
  split at h <;> cases h <;> rfl

theorem ValueType.text_of_ofName? {name : String} {type : ValueType}
    (h : ValueType.ofName? name = some type) : name = type.text := by
  unfold ofName? at h
  split at h <;> cases h <;> rfl

namespace Token

/-- The tokens write the words: words, strings, numbers and truth values as they are, marks of
punctuation by their kind alone, and what follows a colon by its spelling alone. -/
inductive Spelled : List Token → List Token → Prop
  | nil : Spelled [] []
  | operand {token : Token} {tokens words : List Token} (hkind : token.kind.isOperand)
      (hrest : Spelled tokens words) : Spelled (token :: tokens) (token.bare :: words)
  | mark {token : Token} {tokens words : List Token} (hkind : ¬ token.kind.isOperand)
      (hcolon : token.kind ≠ .colon) (hrest : Spelled tokens words) :
      Spelled (token :: tokens) (mark token.kind :: words)
  | typed {colon typeToken : Token} {tokens words : List Token} (hcolon : colon.kind = .colon)
      (hrest : Spelled tokens words) :
      Spelled (colon :: typeToken :: tokens) (Token.mark .colon :: word typeToken.lexeme :: words)

theorem Spelled.append {tokens words more others : List Token} (h : Spelled tokens words)
    (hmore : Spelled more others) : Spelled (tokens ++ more) (words ++ others) := by
  induction h with
  | nil => exact hmore
  | operand hkind _ ih => exact .operand hkind ih
  | mark hkind hcolon _ ih => exact .mark hkind hcolon ih
  | typed hcolon _ ih => exact .typed hcolon ih

/-- Scopes do not count. -/
theorem Spelled.of_inBody {name : String} {tokens words : List Token}
    (h : Spelled (tokens.map (Token.inBody name)) words) : Spelled tokens words := by
  generalize hmap : tokens.map (Token.inBody name) = inside at h
  induction h generalizing tokens with
  | nil =>
    cases List.map_eq_nil_iff.mp hmap
    exact .nil
  | operand hkind _ ih =>
    obtain ⟨token, rest, rfl, rfl, hrest⟩ := List.map_eq_cons_iff.mp hmap
    exact .operand hkind (ih hrest)
  | mark hkind hcolon _ ih =>
    obtain ⟨token, rest, rfl, rfl, hrest⟩ := List.map_eq_cons_iff.mp hmap
    exact .mark hkind hcolon (ih hrest)
  | typed hcolon _ ih =>
    obtain ⟨colon, after, rfl, rfl, hafter⟩ := List.map_eq_cons_iff.mp hmap
    obtain ⟨typed, rest, rfl, rfl, hrest⟩ := List.map_eq_cons_iff.mp hafter
    exact .typed hcolon (ih hrest)

/-- Punctuation is spelled as it should, and types are words. -/
def Regular (tokens : List Token) : Prop :=
  (∀ token ∈ tokens, token.kind.isOperand ∨ token.lexeme = token.kind.text) ∧
    tokens.IsChain fun before token => before.kind = .colon → token.kind = .identifier

instance (tokens : List Token) : Decidable (Regular tokens) := instDecidableAnd

theorem regular_cons {token : Token} {tokens : List Token} (hcolon : token.kind ≠ .colon) :
    Regular (token :: tokens) ↔
      (token.kind.isOperand ∨ token.lexeme = token.kind.text) ∧ Regular tokens := by
  unfold Regular
  cases tokens with
  | nil => simp
  | cons next tokens =>
    simp only [List.forall_mem_cons, List.isChain_cons_cons, hcolon, false_implies, true_and,
      and_assoc]

theorem regular_typed {colon typeToken : Token} {tokens : List Token}
    (hcolon : colon.kind = .colon) : Regular (colon :: typeToken :: tokens) ↔
      colon.lexeme = TokenKind.colon.text ∧ typeToken.kind = .identifier ∧ Regular tokens := by
  have hchain : Regular (colon :: typeToken :: tokens) ↔
      colon.lexeme = TokenKind.colon.text ∧ typeToken.kind = .identifier ∧
        Regular (typeToken :: tokens) := by
    simp only [Regular, List.forall_mem_cons, List.isChain_cons_cons, hcolon, TokenKind.isOperand]
    tauto
  rw [hchain]
  constructor
  · rintro ⟨hlexeme, hkind, hrest⟩
    exact ⟨hlexeme, hkind, ((regular_cons (by simp [hkind])).mp hrest).2⟩
  · rintro ⟨hlexeme, hkind, hrest⟩
    exact ⟨hlexeme, hkind, (regular_cons (by simp [hkind])).mpr
      ⟨.inl (by simp [hkind, TokenKind.isOperand]), hrest⟩⟩

/-- The words are the tokens exactly if neither of the two liberties is taken. -/
theorem Spelled.bare_eq_iff {tokens words : List Token} (h : Spelled tokens words) :
    tokens.map bare = words ↔ Regular tokens := by
  induction h with
  | nil => simp [Regular]
  | @operand token tokens words hkind _ ih =>
    have hcolon : token.kind ≠ .colon := by
      intro h
      simp [h, TokenKind.isOperand] at hkind
    simp [regular_cons hcolon, hkind, ih]
  | mark hkind hcolon _ ih => simp [regular_cons hcolon, hkind, ih, bare, Token.mark]
  | typed hcolon _ ih =>
    simp [regular_typed hcolon, hcolon, ih, bare, Token.mark, word]

theorem isOperand_of_isLiteral {kind : TokenKind} (h : kind.isLiteral) : kind.isOperand := by
  revert h
  cases kind <;> simp [TokenKind.isLiteral, TokenKind.isOperand]

variable {token : Token} {tokens words : List Token}

theorem Spelled.name (h : token.isName) (hrest : Spelled tokens words) :
    Spelled (token :: tokens) (word token.lexeme :: words) := by
  have hkind := (isName_iff.mp h).1
  have hword : token.bare = word token.lexeme := by simp [bare, word, hkind]
  exact hword ▸ .operand (by simp [hkind, TokenKind.isOperand]) hrest

theorem Spelled.keyword {keyword : Keyword} (h : token.keyword? = some keyword)
    (hrest : Spelled tokens words) : Spelled (token :: tokens) (reserved keyword :: words) := by
  have hkind := kind_of_keyword? h
  have htext : token.lexeme = keyword.text := by
    rw [keyword?, if_pos hkind] at h
    exact Keyword.text_of_ofText? h
  have hword : token.bare = reserved keyword := by
    simp [bare, reserved, word, hkind, htext]
  exact hword ▸ .operand (by simp [hkind, TokenKind.isOperand]) hrest

theorem Spelled.string (h : token.kind = .string) (hrest : Spelled tokens words) :
    Spelled (token :: tokens) (quoted token.lexeme :: words) := by
  have hword : token.bare = quoted token.lexeme := by simp [bare, quoted, h]
  exact hword ▸ .operand (by simp [h, TokenKind.isOperand]) hrest

theorem Spelled.ofKind {kind : TokenKind} (h : token.kind = kind)
    (hkind : kind.isOperand = false ∧ kind ≠ .colon) (hrest : Spelled tokens words) :
    Spelled (token :: tokens) (Token.mark kind :: words) := by
  subst h
  exact .mark (by simp [hkind.1]) hkind.2 hrest

end Token

namespace Program.Grammar

open Token (Spelled)

/-- What the relation takes for an item spells what is printed for it. -/
def Prints {α : Type} (One : List Token → α → Prop) (print : α → List Token) : Prop :=
  ∀ tokens item, One tokens item → Spelled tokens (print item)

section Lists

variable {α : Type} {Item : List Token → α → Prop} {print : α → List Token}

theorem prints_items (hitem : Prints Item print) :
    Prints (Items Item) fun items => listed (items.map print) := by
  intro tokens items h
  induction h with
  | last h hclose => exact (hitem _ _ h).append (.ofKind hclose (by decide) .nil)
  | @more tokens rest item items comma h hcomma hrest ih =>
    cases items with
    | nil => cases hrest
    | cons second items => exact (hitem _ _ h).append (.ofKind hcomma (by decide) ih)

theorem prints_listed (hitem : Prints Item print) :
    Prints (Listed Item) fun items => listed (items.map print) := by
  intro tokens items h
  cases h with
  | none hclose => exact .ofKind hclose (by decide) .nil
  | some hitems => exact prints_items hitem _ _ hitems

end Lists

theorem prints_argument : Prints Argument fun token => [token.bare] := by
  intro tokens token h
  cases h with
  | literal hkind => exact .operand (Token.isOperand_of_isLiteral hkind) .nil
  | name hname => exact .operand (by simp [(Token.isName_iff.mp hname).1, TokenKind.isOperand]) .nil

theorem prints_parameter : Prints Parameter Param.print := by
  intro tokens param h
  cases h with
  | plain hname => exact .name hname .nil
  | typed hname hcolon htype =>
    simp only [Param.print, ← ValueType.text_of_ofName? htype]
    exact .name hname (.typed hcolon .nil)

theorem prints_call : Prints CallPhrase Call.print := by
  intro tokens call h
  cases h with
  | mk hname hopening hargs =>
    exact .name hname (.ofKind hopening (by decide) (prints_listed prints_argument _ _ hargs))

theorem prints_access : Prints AccessPhrase Access.print := by
  intro tokens access h
  cases h with
  | field hname hdot hfield => exact .name hname (.ofKind hdot (by decide) (.name hfield .nil))
  | call hname hdot hfield hopening hargs =>
    exact .name hname (.ofKind hdot (by decide) (.name hfield
      (.ofKind hopening (by decide) (prints_listed prints_argument _ _ hargs))))

theorem prints_value : Prints ValuePhrase Expr.print := by
  intro tokens value h
  cases h with
  | literal hkind => exact prints_argument _ _ (.literal hkind)
  | reference hname => exact prints_argument _ _ (.name hname)
  | call h => exact prints_call _ _ h
  | access h => exact prints_access _ _ h

/-- An import that stands for a module names it. -/
def NamesModules (resolve : Resolver) : Prop :=
  ∀ target form, resolve target = .ok form → form.FileFree →
    ∃ module, form = .useModule module ∧ module.name = target.lexeme

variable {resolve : Resolver} {tokens : List Token} {st : Statement}

theorem spelled_import (hresolve : NamesModules resolve) {exported : Bool}
    (h : Import resolve exported tokens st) (hfree : st.form.FileFree) :
    st.exported = exported ∧ Spelled tokens st.form.print := by
  cases h with
  | mk hkeyword htarget hform =>
    obtain ⟨module, rfl, hname⟩ := hresolve _ _ hform hfree
    refine ⟨rfl, ?_⟩
    simp only [Parser.statementAt, Form.print, hname]
    exact .keyword hkeyword (.string htarget .nil)

theorem spelled_phrase (hresolve : NamesModules resolve)
    {F : Bool → List Token → Statement → Prop}
    (hfunction : ∀ exported tokens st, F exported tokens st → st.form.FileFree →
      st.exported = exported ∧ Spelled tokens st.form.print)
    (h : Phrase resolve F tokens st) (hfree : st.form.FileFree) : Spelled tokens st.print := by
  rw [Statement.print_eq]
  cases h with
  | imports h =>
    obtain ⟨hexported, hspelled⟩ := spelled_import hresolve h hfree
    simpa [hexported] using hspelled
  | exportsImport hexporter h =>
    obtain ⟨hexported, hspelled⟩ := spelled_import hresolve h hfree
    simpa [hexported] using Spelled.keyword hexporter hspelled
  | function h =>
    obtain ⟨hexported, hspelled⟩ := hfunction _ _ _ h hfree
    simpa [hexported] using hspelled
  | exportsFunction hexporter h =>
    obtain ⟨hexported, hspelled⟩ := hfunction _ _ _ h hfree
    simpa [hexported] using Spelled.keyword hexporter hspelled
  | declare hkeyword hname hequal hvalue =>
    simp only [Parser.statementAt, Form.print]
    exact .keyword hkeyword (.name hname (.ofKind hequal (by decide) (prints_value _ _ hvalue)))
  | returns hkeyword hscope hvalue =>
    simp only [Parser.statementAt, Form.print]
    exact .keyword hkeyword (prints_value _ _ hvalue)
  | call h =>
    simp only [Parser.statementAt, Form.print]
    exact prints_call _ _ h
  | access h =>
    simp only [Parser.statementAt, Form.print]
    exact prints_access _ _ h
  | assign hname hequal hvalue =>
    simp only [Parser.statementAt, Form.print]
    exact .name hname (.ofKind hequal (by decide) (prints_value _ _ hvalue))
  | assignField hname hdot hfield hequal hvalue =>
    simp only [Parser.statementAt, Form.print]
    exact .name hname (.ofKind hdot (by decide) (.name hfield
      (.ofKind hequal (by decide) (prints_value _ _ hvalue))))

theorem spelled_sequence {One : List Token → Statement → Prop}
    (hone : ∀ tokens st, One tokens st → st.form.FileFree → Spelled tokens st.print)
    {statements : List Statement} (h : Sequence One tokens statements)
    (hfree : ∀ st ∈ statements, st.form.FileFree) : Spelled tokens (printAll statements) := by
  induction h with
  | nil => exact .nil
  | cons hfirst _ ih =>
    obtain ⟨hfree, hrest⟩ := List.forall_mem_cons.mp hfree
    rw [printAll]
    exact (hone _ _ hfirst hfree).append (ih hrest)

theorem spelled_function (hresolve : NamesModules resolve) {file : Option SourceFile}
    {exported : Bool} (h : Function resolve file exported tokens st) (hfree : st.form.FileFree) :
    st.exported = exported ∧ Spelled tokens st.form.print := by
  cases h with
  | mk hkeyword hscope hname hopening hparams hdistinct hbrace hbody hclose =>
    refine ⟨rfl, ?_⟩
    simp only [Parser.statementAt, Form.print, Declaration.print_eq]
    have hinner := spelled_sequence
      (fun _ _ => spelled_phrase hresolve fun _ _ _ h => h.elim) hbody hfree.body
    exact .keyword hkeyword (.name hname (.ofKind hopening (by decide)
      ((prints_listed prints_parameter _ _ hparams).append (.ofKind hbrace (by decide)
        (hinner.of_inBody.append (.ofKind hclose (by decide) .nil))))))

/-- What is read spells what is printed for it. -/
theorem spelled_sentences (hresolve : NamesModules resolve) {file : Option SourceFile}
    {statements : List Statement} (h : Sentences resolve file tokens statements)
    (hfree : ∀ st ∈ statements, st.form.FileFree) : Spelled tokens (printAll statements) :=
  spelled_sequence (fun _ _ => spelled_phrase hresolve fun _ _ _ => spelled_function hresolve) h
    hfree

end Program.Grammar

theorem Loader.namesModules (loader : Loader) :
    Program.Grammar.NamesModules loader.resolve := by
  intro target form hform hfree
  rcases resolve_cases hform with ⟨module, hmodule, rfl⟩ | ⟨file, _, program, rfl, -⟩
  · exact ⟨module, rfl, loader.registry.named _ _ hmodule⟩
  · cases hfree _ (mem_forms_self _)

/-- Whatever tokens are read follow the grammar and spell what is printed for the program that they
write. They are these very words exactly if punctuation is spelled right and types are words. -/
theorem spelled_of_ofTokens {loader : Loader} {tokens : List Token} {program : Program}
    (hfree : program.FileFree) (h : loader.ofTokens tokens = .ok program) :
    Program.Grammar.Sentences loader.resolve loader.file tokens program.statements ∧
      Token.Spelled tokens program.print ∧
      (tokens.map Token.bare = program.print ↔ Token.Regular tokens) := by
  obtain ⟨statements, rfl, hsentences⟩ := Program.ofTokens_eq_ok_iff.mp h
  rw [Program.print_eq]
  have hspelled := Program.Grammar.spelled_sentences loader.namesModules hsentences hfree
  exact ⟨hsentences, hspelled, hspelled.bare_eq_iff⟩

/-- A parameter whose type stands between quotes. -/
def quotedType : String := "function f(a: \"Number\") \x7b \x7d"

/-- A loader that offers the standard library and finds no files. -/
def standardLoader : Loader where
  registry := Library.standard
  files := {}

/-- The quotes are read over: the program is printed without them. -/
theorem spelled_of_ofTokens_quotedType :
    ∃ (tokens : List Token) (program : Program), Token.scan quotedType = .ok tokens ∧
      standardLoader.ofTokens tokens = .ok program ∧ program.FileFree ∧
      Token.Spelled tokens program.print ∧ tokens.map Token.bare ≠ program.print := by
  have hscans : (Token.scan quotedType).toOption.any (fun tokens => decide (¬ Token.Regular tokens ∧
      (standardLoader.ofTokens tokens).toOption.any
        fun program => decide program.FileFree)) = true := by
    decide +kernel
  obtain ⟨tokens, htokens, hfacts⟩ := (Option.any_eq_true _ _).mp hscans
  obtain ⟨hirregular, hloads⟩ := of_decide_eq_true hfacts
  obtain ⟨program, hprogram, hfacts⟩ := (Option.any_eq_true _ _).mp hloads
  have hfree := of_decide_eq_true hfacts
  have hread := eq_ok_of_toOption hprogram
  obtain ⟨-, hspelled, hiff⟩ := spelled_of_ofTokens hfree hread
  exact ⟨tokens, program, eq_ok_of_toOption htokens, hread, hfree, hspelled,
    fun h => hirregular (hiff.mp h)⟩

end Scripting
