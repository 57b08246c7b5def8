import Scripting.Proofs.Forms

/-!
# The grammar of programs

A program is a sequence of phrases that stand side by side. The relations of this module say which
tokens write which statement, rule by rule and without any order of reading: `ValuePhrase` for
values, `Phrase` for statements, `Function` for functions, `Sequence` for what follows one another.
A rule speaks about the tokens as they are, so it fixes the places and the scopes of the statement
as well.

Two facts about the relations are what makes a sequence readable without separators. Every phrase
starts with a word, so it never goes on with the tokens of the phrase before (`worded_sentence`),
and no phrase of a body holds a closing brace (`Phrase.unclosed`).
-/

namespace Scripting

namespace Token

variable {token : Token}

theorem kind_of_keyword? {keyword : Keyword} (h : token.keyword? = some keyword) :
    token.kind = .identifier := by
  unfold keyword? at h
  split at h
  · assumption
  · cases h

theorem isName_iff : token.isName ↔ token.kind = .identifier ∧ token.keyword? = none := by
  simp [isName]

/-- The token as it stands in the body of a function. -/
def inBody (name : String) (token : Token) : Token :=
  { token with scope := some name }

@[simp] theorem kind_inBody (name : String) (token : Token) :
    (token.inBody name).kind = token.kind :=
  rfl

@[simp] theorem lexeme_inBody (name : String) (token : Token) :
    (token.inBody name).lexeme = token.lexeme := rfl

@[simp] theorem span_inBody (name : String) (token : Token) :
    (token.inBody name).span = token.span :=
  rfl

@[simp] theorem scope_inBody (name : String) (token : Token) :
    (token.inBody name).scope = some name := rfl

@[simp] theorem keyword?_inBody (name : String) (token : Token) :
    (token.inBody name).keyword? = token.keyword? := rfl

@[simp] theorem isName_inBody (name : String) (token : Token) :
    (token.inBody name).isName = token.isName := rfl

end Token

namespace Program.Grammar

open Scripting.Program.Parser (statementAt)

/-! ## Lists between parentheses -/

/-- One argument: a literal, or a word that is free to name something. -/
inductive Argument : List Token → Token → Prop
  | literal {token : Token} (hkind : token.kind.isLiteral) : Argument [token] token
  | name {token : Token} (hname : token.isName) : Argument [token] token

/-- One parameter, with or without a type. Only the spelling of the type counts. -/
inductive Parameter : List Token → Param → Prop
  | plain {name : Token} (hname : name.isName) : Parameter [name] { name := name.lexeme }
  | typed {name colon annotation : Token} {type : ValueType} (hname : name.isName)
      (hcolon : colon.kind = .colon) (htype : ValueType.ofName? annotation.lexeme = some type) :
      Parameter [name, colon, annotation] { name := name.lexeme, type := some type }

/-- Items with commas between them, up to and including the closing parenthesis. -/
inductive Items {α : Type} (Item : List Token → α → Prop) : List Token → List α → Prop
  | last {tokens : List Token} {item : α} {close : Token} (hitem : Item tokens item)
      (hclose : close.kind = .rightParen) : Items Item (tokens ++ [close]) [item]
  | more {tokens rest : List Token} {item : α} {items : List α} {comma : Token}
      (hitem : Item tokens item) (hcomma : comma.kind = .comma) (hrest : Items Item rest items) :
      Items Item (tokens ++ comma :: rest) (item :: items)

/-- What follows an opening parenthesis: no items at all, or some. -/
inductive Listed {α : Type} (Item : List Token → α → Prop) : List Token → List α → Prop
  | none {close : Token} (hclose : close.kind = .rightParen) : Listed Item [close] []
  | some {tokens : List Token} {items : List α} (hitems : Items Item tokens items) :
      Listed Item tokens items

/-! ## Values -/

/-- `name(a, b)`. -/
inductive CallPhrase : List Token → Call → Prop
  | mk {name opening : Token} {list args : List Token} (hname : name.isName)
      (hopening : opening.kind = .leftParen) (hargs : Listed Argument list args) :
      CallPhrase (name :: opening :: list) { name := name.lexeme, args, span := name.span }

/-- `Module.field` and `Module.field(a, b)`. -/
inductive AccessPhrase : List Token → Access → Prop
  | field {name dot field : Token} (hname : name.isName) (hdot : dot.kind = .dot)
      (hfield : field.isName) :
      AccessPhrase [name, dot, field]
        { module := name.lexeme, field := field.lexeme, args := none, span := name.span }
  | call {name dot field opening : Token} {list args : List Token} (hname : name.isName)
      (hdot : dot.kind = .dot) (hfield : field.isName) (hopening : opening.kind = .leftParen)
      (hargs : Listed Argument list args) :
      AccessPhrase (name :: dot :: field :: opening :: list)
        { module := name.lexeme, field := field.lexeme, args := some args, span := name.span }

/-- The right-hand side of a declaration, an assignment or a return. -/
inductive ValuePhrase : List Token → Expr → Prop
  | literal {token : Token} (hkind : token.kind.isLiteral) : ValuePhrase [token] (.literal token)
  | reference {token : Token} (hname : token.isName) : ValuePhrase [token] (.reference token)
  | call {tokens : List Token} {call : Call} (hcall : CallPhrase tokens call) :
      ValuePhrase tokens (.call call)
  | access {tokens : List Token} {access : Access} (haccess : AccessPhrase tokens access) :
      ValuePhrase tokens (.access access)

/-! ## Statements -/

/-- `import "Name"`. -/
inductive Import (resolve : Resolver) (exported : Bool) : List Token → Statement → Prop
  | mk {keyword target : Token} {form : Form} (hkeyword : keyword.keyword? = some .imports)
      (htarget : target.kind = .string) (hform : resolve target = .ok form) :
      Import resolve exported [keyword, target] (statementAt keyword form exported)

/-- A statement, where `F` tells what a function is, exported or not. -/
inductive Phrase (resolve : Resolver) (F : Bool → List Token → Statement → Prop) :
    List Token → Statement → Prop
  | imports {tokens : List Token} {st : Statement} (h : Import resolve false tokens st) :
      Phrase resolve F tokens st
  | exportsImport {exporter : Token} {tokens : List Token} {st : Statement}
      (hexporter : exporter.keyword? = some .exports) (h : Import resolve true tokens st) :
      Phrase resolve F (exporter :: tokens) st
  | function {tokens : List Token} {st : Statement} (h : F false tokens st) :
      Phrase resolve F tokens st
  | exportsFunction {exporter : Token} {tokens : List Token} {st : Statement}
      (hexporter : exporter.keyword? = some .exports) (h : F true tokens st) :
      Phrase resolve F (exporter :: tokens) st
  | declare {keyword name equal : Token} {tokens : List Token} {value : Expr}
      (hkeyword : keyword.keyword? = some .declares) (hname : name.isName)
      (hequal : equal.kind = .equal) (hvalue : ValuePhrase tokens value) :
      Phrase resolve F (keyword :: name :: equal :: tokens)
        (statementAt keyword (.declare name.lexeme value) false)
  | returns {keyword : Token} {tokens : List Token} {value : Expr}
      (hkeyword : keyword.keyword? = some .returns) (hscope : keyword.scope ≠ none)
      (hvalue : ValuePhrase tokens value) :
      Phrase resolve F (keyword :: tokens) (statementAt keyword (.returns value) false)
  | call {name : Token} {tokens : List Token} {call : Call}
      (hcall : CallPhrase (name :: tokens) call) :
      Phrase resolve F (name :: tokens) (statementAt name (.call call) false)
  | access {name : Token} {tokens : List Token} {access : Access}
      (haccess : AccessPhrase (name :: tokens) access) :
      Phrase resolve F (name :: tokens) (statementAt name (.access access) false)
  | assign {name equal : Token} {tokens : List Token} {value : Expr} (hname : name.isName)
      (hequal : equal.kind = .equal) (hvalue : ValuePhrase tokens value) :
      Phrase resolve F (name :: equal :: tokens)
        (statementAt name (.assign (.var name.lexeme) value) false)
  | assignField {name dot field equal : Token} {tokens : List Token} {value : Expr}
      (hname : name.isName) (hdot : dot.kind = .dot) (hfield : field.isName)
      (hequal : equal.kind = .equal) (hvalue : ValuePhrase tokens value) :
      Phrase resolve F (name :: dot :: field :: equal :: tokens)
        (statementAt name (.assign (.field name.lexeme field.lexeme) value) false)

/-- Phrases that follow one another. -/
inductive Sequence (One : List Token → Statement → Prop) : List Token → List Statement → Prop
  | nil : Sequence One [] []
  | cons {tokens rest : List Token} {st : Statement} {statements : List Statement}
      (hfirst : One tokens st) (hrest : Sequence One rest statements) :
      Sequence One (tokens ++ rest) (st :: statements)

/-- Where functions may not stand. -/
def NoFunction (_exported : Bool) (_tokens : List Token) (_st : Statement) : Prop := False

/-- `function name(a, b: Type) { … }`. The tokens of the body carry the name of the function. -/
inductive Function (resolve : Resolver) (file : Option SourceFile) (exported : Bool) :
    List Token → Statement → Prop
  | mk {keyword name opening brace close : Token} {list inner : List Token} {params : List Param}
      {statements : List Statement} (hkeyword : keyword.keyword? = some .function)
      (hscope : keyword.scope = none) (hname : name.isName) (hopening : opening.kind = .leftParen)
      (hparams : Listed Parameter list params) (hdistinct : (params.map Param.name).Nodup)
      (hbrace : brace.kind = .leftBrace)
      (hbody : Sequence (Phrase resolve NoFunction) (inner.map (Token.inBody name.lexeme))
        statements)
      (hclose : close.kind = .rightBrace) :
      Function resolve file exported
        (keyword :: name :: opening :: (list ++ brace :: (inner ++ [close])))
        (statementAt keyword
          (.function
            { name := name.lexeme
              params
              body := ofStatements statements
              span := name.span
              file })
          exported)

/-- The statements of a file. -/
def Sentences (resolve : Resolver) (file : Option SourceFile) :
    List Token → List Statement → Prop :=
  Sequence (Phrase resolve (Function resolve file))

/-! ## How phrases start and what they do not hold -/

/-- The tokens are none at all or start with a word, reserved or not. -/
def StartsWithWord (tokens : List Token) : Prop :=
  ∀ token ∈ tokens.head?, token.kind = .identifier

theorem startsWithWord_cons {token : Token} {tokens : List Token} :
    StartsWithWord (token :: tokens) ↔ token.kind = .identifier := by
  simp [StartsWithWord]

theorem StartsWithWord.kind_ne {kind : TokenKind} {tokens : List Token} (h : StartsWithWord tokens)
    (hkind : kind ≠ .identifier) : ∀ token ∈ tokens.head?, token.kind ≠ kind := by
  intro token htoken
  rw [h token htoken]
  exact hkind.symm

/-- What the relation takes for a statement is one token long at least and starts with a word. -/
def Worded (One : List Token → Statement → Prop) : Prop :=
  ∀ tokens st, One tokens st → ∃ first rest, tokens = first :: rest ∧ first.kind = .identifier

theorem worded_phrase {resolve : Resolver} {F : Bool → List Token → Statement → Prop}
    (hfunction : ∀ exported, Worded (F exported)) : Worded (Phrase resolve F) := by
  intro tokens st h
  cases h with
  | imports h =>
    cases h with
    | mk hkeyword => exact ⟨_, _, rfl, Token.kind_of_keyword? hkeyword⟩
  | exportsImport hexporter | exportsFunction hexporter =>
    exact ⟨_, _, rfl, Token.kind_of_keyword? hexporter⟩
  | function h => exact hfunction _ _ _ h
  | declare hkeyword | returns hkeyword => exact ⟨_, _, rfl, Token.kind_of_keyword? hkeyword⟩
  | call h =>
    cases h with
    | mk hname => exact ⟨_, _, rfl, (Token.isName_iff.mp hname).1⟩
  | access h =>
    cases h with
    | field hname | call hname => exact ⟨_, _, rfl, (Token.isName_iff.mp hname).1⟩
  | assign hname | assignField hname => exact ⟨_, _, rfl, (Token.isName_iff.mp hname).1⟩

theorem worded_clause {resolve : Resolver} : Worded (Phrase resolve NoFunction) :=
  worded_phrase fun _ _ _ h => h.elim

theorem worded_sentence {resolve : Resolver} {file : Option SourceFile} :
    Worded (Phrase resolve (Function resolve file)) := by
  apply worded_phrase
  intro exported tokens st h
  cases h with
  | mk hkeyword => exact ⟨_, _, rfl, Token.kind_of_keyword? hkeyword⟩

section Sequence

variable {One : List Token → Statement → Prop} {tokens more : List Token}
  {statements others : List Statement}

theorem Sequence.startsWithWord (hone : Worded One) (h : Sequence One tokens statements) :
    StartsWithWord tokens := by
  cases h with
  | nil => simp [StartsWithWord]
  | cons hfirst hrest =>
    obtain ⟨first, rest, rfl, hkind⟩ := hone _ _ hfirst
    exact startsWithWord_cons.mpr hkind

theorem Sequence.append (h : Sequence One tokens statements)
    (hmore : Sequence One more others) : Sequence One (tokens ++ more) (statements ++ others) := by
  induction h with
  | nil => exact hmore
  | cons hfirst hrest ih =>
    rw [List.append_assoc]
    exact .cons hfirst ih

end Sequence

/-! ## Closing braces -/

/-- None of the tokens is a closing brace. -/
def Unclosed (tokens : List Token) : Prop := ∀ token ∈ tokens, token.kind ≠ .rightBrace

theorem unclosed_cons {token : Token} {tokens : List Token} :
    Unclosed (token :: tokens) ↔ token.kind ≠ .rightBrace ∧ Unclosed tokens :=
  List.forall_mem_cons

theorem ne_rightBrace_of_isName {token : Token} (h : token.isName) : token.kind ≠ .rightBrace := by
  simp [(Token.isName_iff.mp h).1]

theorem ne_rightBrace_of_keyword? {token : Token} {keyword : Keyword}
    (h : token.keyword? = some keyword) : token.kind ≠ .rightBrace := by
  simp [Token.kind_of_keyword? h]

theorem ne_rightBrace_of_isLiteral {token : Token} (h : token.kind.isLiteral) :
    token.kind ≠ .rightBrace := by
  intro hkind
  rw [hkind] at h
  cases h

theorem ne_rightBrace_of_kind {token : Token} {kind : TokenKind} (h : token.kind = kind)
    (hne : kind ≠ .rightBrace) : token.kind ≠ .rightBrace :=
  h ▸ hne

theorem unclosed_items {tokens args : List Token} (h : Items Argument tokens args) :
    Unclosed tokens := by
  have hitem : ∀ {tokens token}, Argument tokens token → Unclosed tokens := by
    intro tokens token h
    cases h with
    | literal hkind => simpa [Unclosed] using ne_rightBrace_of_isLiteral hkind
    | name hname => simpa [Unclosed] using ne_rightBrace_of_isName hname
  induction h with
  | last h hclose =>
    exact List.forall_mem_append.mpr
      ⟨hitem h, by simpa using ne_rightBrace_of_kind hclose (by decide)⟩
  | more h hcomma _ ih =>
    exact List.forall_mem_append.mpr
      ⟨hitem h, unclosed_cons.mpr ⟨ne_rightBrace_of_kind hcomma (by decide), ih⟩⟩

theorem unclosed_arguments {tokens args : List Token} (h : Listed Argument tokens args) :
    Unclosed tokens := by
  cases h with
  | none hclose => simpa [Unclosed] using ne_rightBrace_of_kind hclose (by decide)
  | some hitems => exact unclosed_items hitems

theorem unclosed_call {tokens : List Token} {call : Call} (h : CallPhrase tokens call) :
    Unclosed tokens := by
  cases h with
  | mk hname hopening hargs =>
    simp only [unclosed_cons]
    exact ⟨ne_rightBrace_of_isName hname, ne_rightBrace_of_kind hopening (by decide),
      unclosed_arguments hargs⟩

theorem unclosed_access {tokens : List Token} {access : Access} (h : AccessPhrase tokens access) :
    Unclosed tokens := by
  cases h with
  | field hname hdot hfield =>
    simp only [unclosed_cons]
    exact ⟨ne_rightBrace_of_isName hname, ne_rightBrace_of_kind hdot (by decide),
      ne_rightBrace_of_isName hfield, by simp [Unclosed]⟩
  | call hname hdot hfield hopening hargs =>
    simp only [unclosed_cons]
    exact ⟨ne_rightBrace_of_isName hname, ne_rightBrace_of_kind hdot (by decide),
      ne_rightBrace_of_isName hfield, ne_rightBrace_of_kind hopening (by decide),
      unclosed_arguments hargs⟩

theorem unclosed_value {tokens : List Token} {value : Expr} (h : ValuePhrase tokens value) :
    Unclosed tokens := by
  cases h with
  | literal hkind => simpa [Unclosed] using ne_rightBrace_of_isLiteral hkind
  | reference hname => simpa [Unclosed] using ne_rightBrace_of_isName hname
  | call h => exact unclosed_call h
  | access h => exact unclosed_access h

theorem unclosed_import {resolve : Resolver} {exported : Bool} {tokens : List Token}
    {st : Statement} (h : Import resolve exported tokens st) : Unclosed tokens := by
  cases h with
  | mk hkeyword htarget =>
    simp only [unclosed_cons]
    exact ⟨ne_rightBrace_of_keyword? hkeyword, ne_rightBrace_of_kind htarget (by decide),
      by simp [Unclosed]⟩

/-- A phrase of a body holds no closing brace, so the first one ends the body. -/
theorem Phrase.unclosed {resolve : Resolver} {tokens : List Token} {st : Statement}
    (h : Phrase resolve NoFunction tokens st) : Unclosed tokens := by
  cases h with
  | imports h => exact unclosed_import h
  | exportsImport hexporter h =>
    exact unclosed_cons.mpr ⟨ne_rightBrace_of_keyword? hexporter, unclosed_import h⟩
  | function h | exportsFunction _ h => exact h.elim
  | declare hkeyword hname hequal hvalue =>
    simp only [unclosed_cons]
    exact ⟨ne_rightBrace_of_keyword? hkeyword, ne_rightBrace_of_isName hname,
      ne_rightBrace_of_kind hequal (by decide), unclosed_value hvalue⟩
  | returns hkeyword _ hvalue =>
    exact unclosed_cons.mpr ⟨ne_rightBrace_of_keyword? hkeyword, unclosed_value hvalue⟩
  | call h => exact unclosed_call h
  | access h => exact unclosed_access h
  | assign hname hequal hvalue =>
    simp only [unclosed_cons]
    exact ⟨ne_rightBrace_of_isName hname, ne_rightBrace_of_kind hequal (by decide),
      unclosed_value hvalue⟩
  | assignField hname hdot hfield hequal hvalue =>
    simp only [unclosed_cons]
    exact ⟨ne_rightBrace_of_isName hname, ne_rightBrace_of_kind hdot (by decide),
      ne_rightBrace_of_isName hfield, ne_rightBrace_of_kind hequal (by decide),
      unclosed_value hvalue⟩

theorem Sequence.unclosed {resolve : Resolver} {tokens : List Token} {statements : List Statement}
    (h : Sequence (Phrase resolve NoFunction) tokens statements) : Unclosed tokens := by
  induction h with
  | nil => simp [Unclosed]
  | cons hfirst _ ih => exact List.forall_mem_append.mpr ⟨hfirst.unclosed, ih⟩

end Program.Grammar

end Scripting
