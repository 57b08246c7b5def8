import Scripting.Proofs.Grammatical

/-!
# What follows the grammar is read

`Parser.Gives` says that a step of reading succeeds, with what result, and which tokens it leaves.
Where a step looks ahead, the tokens that it leaves must not go on with what it has read; those of
the next phrase do not, since they start with a word.

Together with the other direction this gives the main result, `Program.ofTokens_eq_ok_iff`: a
program is read from a list of tokens exactly if the grammar derives it from them. In particular the
grammar is not ambiguous.
-/

namespace Scripting.Program

open Grammar

namespace Parser

variable {α β : Type} {parser : Parser α} {cursor : Cursor}

/-! ## The tokens that a step leaves -/

/-- The parser succeeds with the result and leaves these tokens. -/
def Gives (parser : Parser α) (cursor : Cursor) (a : α) (rest : List Token) : Prop :=
  ∃ cursor', parser cursor = .ok (a, cursor') ∧ cursor'.rest = rest

section Rules

variable {a : α} {rest : List Token}

theorem gives_pure (h : cursor.rest = rest) : Gives (pure a) cursor a rest :=
  ⟨cursor, rfl, h⟩

theorem Gives.bind {next : α → Parser β} {b : β} {middle : List Token}
    (h : Gives parser cursor a middle)
    (hnext : ∀ after : Cursor, after.rest = middle → Gives (next a) after b rest) :
    Gives (parser >>= next) cursor b rest := by
  obtain ⟨after, hparser, hmiddle⟩ := h
  obtain ⟨cursor', hrun, hrest⟩ := hnext after hmiddle
  refine ⟨cursor', ?_, hrest⟩
  show (parser cursor >>= fun pair => next pair.1 pair.2) = _
  rw [hparser]
  exact hrun

theorem Gives.map {f : α → β} (h : Gives parser cursor a rest) :
    Gives (f <$> parser) cursor (f a) rest := by
  rw [map_eq_pure_bind]
  exact h.bind fun after hafter => gives_pure hafter

theorem gives_get_bind {next : Cursor → Parser β} {b : β} (h : Gives (next cursor) cursor b rest) :
    Gives (get >>= next) cursor b rest := h

theorem gives_peek?_bind {next : Option Token → Parser β} {b : β}
    (h : Gives (next cursor.rest.head?) cursor b rest) : Gives (peek? >>= next) cursor b rest := h

theorem gives_peekKind?_bind {next : Option TokenKind → Parser β} {b : β} {kind? : Option TokenKind}
    (hkind : cursor.rest.head?.map Token.kind = kind?) (h : Gives (next kind?) cursor b rest) :
    Gives (peekKind? >>= next) cursor b rest := by
  subst hkind
  exact h

theorem gives_lift {x : Except Error α} (hx : x = .ok a) (h : cursor.rest = rest) :
    Gives (liftM x) cursor a rest :=
  ⟨cursor, by rw [hx]; rfl, h⟩

end Rules

/-! ## Single tokens -/

section Tokens

variable {token : Token} {rest : List Token}

theorem gives_next? (h : cursor.rest = token :: rest) : Gives next? cursor (some token) rest :=
  ⟨_, next?_of_cons h, rfl⟩

theorem gives_next (h : cursor.rest = token :: rest) : Gives next cursor token rest :=
  (gives_next? h).bind fun _ hafter => gives_pure hafter

theorem gives_accept {kind : TokenKind} (h : cursor.rest = token :: rest)
    (hkind : token.kind = kind) :
    Gives (accept kind) cursor true rest :=
  ⟨_, accept_of_kind h hkind, rfl⟩

theorem gives_accept_of_ne {kind : TokenKind} (h : cursor.rest = rest)
    (hhead : ∀ token ∈ rest.head?, token.kind ≠ kind) : Gives (accept kind) cursor false rest :=
  ⟨cursor, accept_of_ne (h ▸ hhead), h⟩

theorem gives_expect {kind : TokenKind} (expected : String) (h : cursor.rest = token :: rest)
    (hkind : token.kind = kind) : Gives (expect kind expected) cursor token rest := by
  apply (gives_next? h).bind
  intro after hafter
  show Gives (ite _ _ _) after _ _
  rw [if_pos hkind]
  exact gives_pure hafter

theorem gives_expectName (expected : String) (h : cursor.rest = token :: rest)
    (hname : token.isName) : Gives (expectName expected) cursor token rest := by
  obtain ⟨hkind, hkeyword⟩ := Token.isName_iff.mp hname
  apply (gives_expect expected h hkind).bind
  intro after hafter
  rw [if_neg (by simp [hkeyword])]
  exact gives_pure hafter

end Tokens

/-! ## Lists of arguments and parameters -/

theorem isOperand_of_argument {tokens : List Token} {token : Token} (h : Argument tokens token) :
    tokens = [token] ∧ (!token.kind.isOperand || token.keyword?.isSome) = false := by
  cases h with
  | literal hkind =>
    refine ⟨rfl, ?_⟩
    unfold Token.keyword?
    cases hcase : token.kind <;> simp_all [TokenKind.isLiteral, TokenKind.isOperand]
  | name hname =>
    obtain ⟨hkind, hkeyword⟩ := Token.isName_iff.mp hname
    exact ⟨rfl, by simp [hkind, hkeyword, TokenKind.isOperand]⟩

theorem argumentsFrom_of_items {tokens args : List Token} (h : Items Argument tokens args)
    (previous : Span) (rest : List Token) :
    ∃ last, argumentsFrom previous (tokens ++ rest) = .ok (args, { previous := last, rest }) := by
  induction h generalizing previous with
  | @last _ item close hitem hclose =>
    obtain ⟨rfl, hoperand⟩ := isOperand_of_argument hitem
    exact ⟨close.span, by simp [argumentsFrom, hoperand, hclose]⟩
  | @more _ _ item _ comma hitem hcomma _ ih =>
    obtain ⟨rfl, hoperand⟩ := isOperand_of_argument hitem
    obtain ⟨last, hlast⟩ := ih comma.span
    exact ⟨last, by
      simp [argumentsFrom, hoperand, hcomma, hlast, bind, Except.bind, pure, Except.pure]⟩

theorem parametersFrom_of_items {tokens : List Token} {params : List Param}
    (h : Items Parameter tokens params) {taken : List String} (hdistinct : Distinct taken params)
    (previous : Span) (rest : List Token) :
    ∃ last, parametersFrom taken previous (tokens ++ rest) =
      .ok (params, { previous := last, rest }) := by
  induction h generalizing taken previous with
  | @last _ item close hitem hclose =>
    obtain ⟨hnew, -⟩ := distinct_cons.mp hdistinct
    refine ⟨close.span, ?_⟩
    unfold parametersFrom
    cases hitem with
    | plain hname => simp [hname, hnew, hclose]
    | typed hname hcolon htype =>
      simp [parameterType, hname, hnew, hcolon, htype, hclose, bind, Except.bind, pure, Except.pure]
  | @more _ _ item _ comma hitem hcomma _ ih =>
    obtain ⟨hnew, hrest⟩ := distinct_cons.mp hdistinct
    obtain ⟨last, hlast⟩ := ih hrest comma.span
    refine ⟨last, ?_⟩
    unfold parametersFrom
    cases hitem with
    | plain hname => simp_all [bind, Except.bind, pure, Except.pure]
    | typed hname hcolon htype => simp_all [parameterType, bind, Except.bind, pure, Except.pure]

/-- The first token of a list that is not empty does not close it. -/
theorem head_ne_rightParen {Item : List Token → β → Prop} {tokens : List Token} {items : List β}
    (rest : List Token)
    (hitem : ∀ tokens b, Item tokens b →
      ∃ first rest, tokens = first :: rest ∧ first.kind ≠ .rightParen)
    (h : Items Item tokens items) : ∀ token ∈ (tokens ++ rest).head?, token.kind ≠ .rightParen := by
  have hfirst : ∃ first rest, tokens = first :: rest ∧ first.kind ≠ .rightParen := by
    cases h with
    | last h => obtain ⟨first, rest, rfl, hkind⟩ := hitem _ _ h; exact ⟨first, _, rfl, hkind⟩
    | more h => obtain ⟨first, rest, rfl, hkind⟩ := hitem _ _ h; exact ⟨first, _, rfl, hkind⟩
  obtain ⟨first, rest, rfl, hkind⟩ := hfirst
  simpa using hkind

theorem gives_arguments {list args rest : List Token} (h : Listed Argument list args)
    (hrest : cursor.rest = list ++ rest) : Gives arguments cursor args rest := by
  cases h with
  | none hclose =>
    apply (gives_accept hrest hclose).bind
    intro after hafter
    exact gives_pure hafter
  | some hitems =>
    have hhead := head_ne_rightParen rest (fun tokens token h => by
      cases h with
      | literal hkind => exact ⟨_, _, rfl, fun h => by rw [h] at hkind; cases hkind⟩
      | name hname => exact ⟨_, _, rfl, by simp [(Token.isName_iff.mp hname).1]⟩) hitems
    apply (gives_accept_of_ne hrest hhead).bind
    intro after hafter
    apply gives_get_bind
    obtain ⟨last, hlast⟩ := argumentsFrom_of_items hitems after.previous rest
    apply (gives_lift (hafter ▸ hlast) hafter).bind
    intro final _
    exact ⟨_, rfl, rfl⟩

theorem gives_parameters {list rest : List Token} {params : List Param}
    (h : Listed Parameter list params) (hdistinct : (params.map Param.name).Nodup)
    (hrest : cursor.rest = list ++ rest) : Gives parameters cursor params rest := by
  cases h with
  | none hclose =>
    apply (gives_accept hrest hclose).bind
    intro after hafter
    exact gives_pure hafter
  | some hitems =>
    have hhead := head_ne_rightParen rest (fun tokens token h => by
      cases h with
      | plain hname | typed hname =>
        exact ⟨_, _, rfl, by simp [(Token.isName_iff.mp hname).1]⟩) hitems
    apply (gives_accept_of_ne hrest hhead).bind
    intro after hafter
    apply gives_get_bind
    have hfresh : Distinct [] params := ⟨hdistinct, fun _ _ => List.not_mem_nil⟩
    obtain ⟨last, hlast⟩ := parametersFrom_of_items hitems hfresh after.previous rest
    apply (gives_lift (hafter ▸ hlast) hafter).bind
    intro final _
    exact ⟨_, rfl, rfl⟩

/-! ## Values -/

theorem gives_call {name : Token} {tokens rest : List Token} {call : Call}
    (h : CallPhrase (name :: tokens) call) (hrest : cursor.rest = tokens ++ rest) :
    Gives (Parser.call name) cursor call rest := by
  cases h with
  | mk hname hopening hargs =>
    apply (gives_expect _ hrest hopening).bind
    intro after hafter
    apply (gives_arguments hargs hafter).bind
    intro after hafter
    exact gives_pure hafter

/-- A field that is not called must not be followed by an opening parenthesis. -/
theorem gives_access {name : Token} {tokens rest : List Token} {access : Access}
    (h : AccessPhrase (name :: tokens) access) (hrest : cursor.rest = tokens ++ rest)
    (hhead : ∀ token ∈ rest.head?, token.kind ≠ .leftParen) :
    Gives (Parser.access name) cursor access rest := by
  cases h with
  | field hname hdot hfield =>
    apply (gives_expect _ hrest hdot).bind
    intro after hafter
    apply (gives_next hafter).bind
    intro after hafter
    rw [if_neg (by simp [hfield])]
    apply (gives_accept_of_ne hafter hhead).bind
    intro after hafter
    exact gives_pure hafter
  | call hname hdot hfield hopening hargs =>
    apply (gives_expect _ hrest hdot).bind
    intro after hafter
    apply (gives_next hafter).bind
    intro after hafter
    rw [if_neg (by simp [hfield])]
    apply (gives_accept hafter hopening).bind
    intro after hafter
    apply (gives_arguments hargs hafter).map.bind
    intro after hafter
    exact gives_pure hafter

theorem not_isLiteral_of_isName {token : Token} (hname : token.isName) :
    ¬ token.kind.isLiteral := by
  simp [(Token.isName_iff.mp hname).1, TokenKind.isLiteral]

theorem gives_value {tokens rest : List Token} {value : Expr} (h : ValuePhrase tokens value)
    (hrest : cursor.rest = tokens ++ rest) (hword : StartsWithWord rest) :
    Gives Parser.value cursor value rest := by
  cases h with
  | literal hkind =>
    apply (gives_next? hrest).bind
    intro after hafter
    show Gives (ite _ _ _) after _ _
    rw [if_pos hkind]
    exact gives_pure hafter
  | reference hname =>
    apply (gives_next? hrest).bind
    intro after hafter
    show Gives (ite _ _ _) after _ _
    rw [if_neg (not_isLiteral_of_isName hname), if_pos hname]
    -- What follows starts with a word, so neither a call nor a field goes on here.
    cases rest with
    | nil =>
      have hnext : after.rest.head?.map Token.kind = none := by rw [hafter]; simp
      apply gives_peekKind?_bind hnext
      exact gives_pure hafter
    | cons next rest =>
      have hnext : after.rest.head?.map Token.kind = some .identifier := by
        rw [hafter]
        exact congrArg some (startsWithWord_cons.mp hword)
      apply gives_peekKind?_bind hnext
      exact gives_pure hafter
  | @call _ call h =>
    obtain ⟨name, opening, more, rfl, hname, hopening⟩ : ∃ name opening more,
        tokens = name :: opening :: more ∧ name.isName ∧ opening.kind = .leftParen := by
      cases h with
      | mk hname hopening => exact ⟨_, _, _, rfl, hname, hopening⟩
    apply (gives_next? hrest).bind
    intro after hafter
    show Gives (ite _ _ _) after _ _
    rw [if_neg (not_isLiteral_of_isName hname), if_pos hname]
    have hnext : after.rest.head?.map Token.kind = some .leftParen := by
      rw [hafter]
      exact congrArg some hopening
    apply gives_peekKind?_bind hnext
    exact (gives_call h hafter).map
  | @access _ access h =>
    obtain ⟨name, dot, more, rfl, hname, hdot⟩ : ∃ name dot more,
        tokens = name :: dot :: more ∧ name.isName ∧ dot.kind = .dot := by
      cases h with
      | field hname hdot | call hname hdot => exact ⟨_, _, _, rfl, hname, hdot⟩
    apply (gives_next? hrest).bind
    intro after hafter
    show Gives (ite _ _ _) after _ _
    rw [if_neg (not_isLiteral_of_isName hname), if_pos hname]
    have hnext : after.rest.head?.map Token.kind = some .dot := by
      rw [hafter]
      exact congrArg some hdot
    apply gives_peekKind?_bind hnext
    exact (gives_access h hafter (hword.kind_ne (by decide))).map

/-! ## Statements -/

section Statements

variable {resolve : Resolver} {F : Bool → List Token → Statement → Prop} {st : Statement}
  {tokens rest : List Token}

theorem gives_importStatement {exported : Bool} (h : Import resolve exported tokens st)
    (hrest : cursor.rest = tokens ++ rest) :
    Gives (importStatement resolve exported) cursor st rest := by
  cases h with
  | mk hkeyword htarget hform =>
    apply (gives_next hrest).bind
    intro after hafter
    apply (gives_next hafter).bind
    intro after hafter
    rw [if_neg (by simp [htarget])]
    apply (gives_lift hform hafter).bind
    intro after hafter
    exact gives_pure hafter

theorem gives_declareStatement {keyword name equal : Token} {value : Expr} (hname : name.isName)
    (hequal : equal.kind = .equal) (hvalue : ValuePhrase tokens value)
    (hrest : cursor.rest = keyword :: name :: equal :: tokens ++ rest)
    (hword : StartsWithWord rest) :
    Gives declareStatement cursor (statementAt keyword (.declare name.lexeme value) false)
      rest := by
  apply (gives_next hrest).bind
  intro after hafter
  apply (gives_expectName _ hafter hname).bind
  intro after hafter
  apply (gives_expect _ hafter hequal).bind
  intro after hafter
  apply (gives_value hvalue hafter hword).bind
  intro after hafter
  exact gives_pure hafter

theorem gives_returnStatement {keyword : Token} {value : Expr} (hscope : keyword.scope ≠ none)
    (hvalue : ValuePhrase tokens value) (hrest : cursor.rest = keyword :: tokens ++ rest)
    (hword : StartsWithWord rest) :
    Gives returnStatement cursor (statementAt keyword (.returns value) false) rest := by
  apply (gives_next hrest).bind
  intro after hafter
  rw [if_neg (by simpa using hscope)]
  apply (gives_value hvalue hafter hword).bind
  intro after hafter
  exact gives_pure hafter

theorem gives_callStatement {name : Token} {call : Call} (h : CallPhrase (name :: tokens) call)
    (hrest : cursor.rest = name :: tokens ++ rest) :
    Gives callStatement cursor (statementAt name (.call call) false) rest := by
  apply (gives_next hrest).bind
  intro after hafter
  apply (gives_call h hafter).bind
  intro after hafter
  exact gives_pure hafter

theorem gives_assignStatement {name equal : Token} {value : Expr} (hequal : equal.kind = .equal)
    (hvalue : ValuePhrase tokens value) (hrest : cursor.rest = name :: equal :: tokens ++ rest)
    (hword : StartsWithWord rest) :
    Gives assignStatement cursor (statementAt name (.assign (.var name.lexeme) value) false)
      rest := by
  apply (gives_next hrest).bind
  intro after hafter
  apply (gives_expect _ hafter hequal).bind
  intro after hafter
  apply (gives_value hvalue hafter hword).bind
  intro after hafter
  exact gives_pure hafter

theorem gives_accessStatement {name : Token} {access : Access}
    (h : AccessPhrase (name :: tokens) access) (hrest : cursor.rest = name :: tokens ++ rest)
    (hword : StartsWithWord rest) :
    Gives accessStatement cursor (statementAt name (.access access) false) rest := by
  apply (gives_next hrest).bind
  intro after hafter
  apply (gives_access h hafter (hword.kind_ne (by decide))).bind
  intro after hafter
  split
  · apply (gives_accept_of_ne hafter (hword.kind_ne (by decide))).bind
    intro after hafter
    exact gives_pure hafter
  · exact gives_pure hafter

theorem gives_accessStatement_assign {name dot field equal : Token} {value : Expr}
    (hname : name.isName) (hdot : dot.kind = .dot) (hfield : field.isName)
    (hequal : equal.kind = .equal) (hvalue : ValuePhrase tokens value)
    (hrest : cursor.rest = name :: dot :: field :: equal :: tokens ++ rest)
    (hword : StartsWithWord rest) :
    Gives accessStatement cursor
      (statementAt name (.assign (.field name.lexeme field.lexeme) value) false) rest := by
  apply (gives_next hrest).bind
  intro after hafter
  have haccess := AccessPhrase.field hname hdot hfield
  apply (gives_access haccess hafter (by simp [hequal])).bind
  intro after hafter
  rw [if_pos (by rfl)]
  apply (gives_accept hafter hequal).bind
  intro after hafter
  apply (gives_value hvalue hafter hword).bind
  intro after hafter
  exact gives_pure hafter

end Statements

/-! ## How a statement is told -/

section Dispatch

variable {resolve : Resolver} {function : Bool → Parser Statement}

/-- What a keyword introduces. -/
def introduced (resolve : Resolver) (function : Bool → Parser Statement) :
    Keyword → Parser Statement
  | .imports => importStatement resolve false
  | .exports => exportStatement resolve function
  | .function => function false
  | .declares => declareStatement
  | .returns => returnStatement

theorem statement_of_keyword {keyword : Keyword} (hat : AtKeyword keyword cursor) :
    statement resolve function cursor = introduced resolve function keyword cursor := by
  obtain ⟨token, rest, hrest, hkeyword⟩ := hat
  unfold statement introduced
  cases keyword <;> simp only [get_bind, hrest, hkeyword]

theorem statement_of_leftParen {name opening : Token} {rest : List Token}
    (hrest : cursor.rest = name :: opening :: rest) (hname : name.isName)
    (hopening : opening.kind = .leftParen) :
    statement resolve function cursor = callStatement cursor := by
  obtain ⟨hkind, hkeyword⟩ := Token.isName_iff.mp hname
  unfold statement
  simp only [get_bind, hrest, hkeyword, hkind, hopening, List.head?_cons, Option.map_some]

theorem statement_of_dot {name dot : Token} {rest : List Token}
    (hrest : cursor.rest = name :: dot :: rest) (hname : name.isName) (hdot : dot.kind = .dot) :
    statement resolve function cursor = accessStatement cursor := by
  obtain ⟨hkind, hkeyword⟩ := Token.isName_iff.mp hname
  unfold statement
  simp only [get_bind, hrest, hkeyword, hkind, hdot, List.head?_cons, Option.map_some]

theorem statement_of_equal {name equal : Token} {rest : List Token}
    (hrest : cursor.rest = name :: equal :: rest) (hname : name.isName)
    (hequal : equal.kind = .equal) :
    statement resolve function cursor = assignStatement cursor := by
  obtain ⟨hkind, hkeyword⟩ := Token.isName_iff.mp hname
  unfold statement
  simp only [get_bind, hrest, hkeyword, hkind, hequal, List.head?_cons, Option.map_some]

variable {F : Bool → List Token → Statement → Prop} {st : Statement} {tokens rest : List Token}

/-- Whatever `F` takes for a function is read as one. -/
def ReadsFunctions (function : Bool → Parser Statement) (F : Bool → List Token → Statement → Prop) :
    Prop :=
  ∀ exported tokens st rest (cursor : Cursor), F exported tokens st → cursor.rest = tokens ++ rest →
    AtKeyword .function cursor ∧ Gives (function exported) cursor st rest

theorem atKeyword_of_import {exported : Bool} (h : Import resolve exported tokens st)
    (hrest : cursor.rest = tokens ++ rest) : AtKeyword .imports cursor := by
  cases h with
  | mk hkeyword => exact ⟨_, _, hrest, hkeyword⟩

theorem gives_exportStatement_import {exporter : Token} (h : Import resolve true tokens st)
    (hrest : cursor.rest = exporter :: tokens ++ rest) :
    Gives (exportStatement resolve function) cursor st rest := by
  apply (gives_next hrest).bind
  intro after hafter
  obtain ⟨token, more, hmore, hkeyword⟩ := atKeyword_of_import h hafter
  apply gives_peek?_bind
  simp only [hmore, List.head?_cons, hkeyword]
  exact gives_importStatement h hafter

theorem gives_exportStatement_function (hfunction : ReadsFunctions function F) {exporter : Token}
    (h : F true tokens st) (hrest : cursor.rest = exporter :: tokens ++ rest) :
    Gives (exportStatement resolve function) cursor st rest := by
  apply (gives_next hrest).bind
  intro after hafter
  obtain ⟨⟨token, more, hmore, hkeyword⟩, hgives⟩ := hfunction _ _ _ _ _ h hafter
  apply gives_peek?_bind
  simp only [hmore, List.head?_cons, hkeyword]
  exact hgives

theorem gives_statement (hfunction : ReadsFunctions function F) (h : Phrase resolve F tokens st)
    (hrest : cursor.rest = tokens ++ rest) (hword : StartsWithWord rest) :
    Gives (statement resolve function) cursor st rest := by
  unfold Gives
  cases h with
  | imports h =>
    rw [statement_of_keyword (atKeyword_of_import h hrest)]
    exact gives_importStatement h hrest
  | exportsImport hexporter h =>
    rw [statement_of_keyword ⟨_, _, hrest, hexporter⟩]
    exact gives_exportStatement_import h hrest
  | function h =>
    obtain ⟨hat, hgives⟩ := hfunction _ _ _ _ _ h hrest
    rw [statement_of_keyword hat]
    exact hgives
  | exportsFunction hexporter h =>
    rw [statement_of_keyword ⟨_, _, hrest, hexporter⟩]
    exact gives_exportStatement_function hfunction h hrest
  | declare hkeyword hname hequal hvalue =>
    rw [statement_of_keyword ⟨_, _, hrest, hkeyword⟩]
    exact gives_declareStatement hname hequal hvalue hrest hword
  | returns hkeyword hscope hvalue =>
    rw [statement_of_keyword ⟨_, _, hrest, hkeyword⟩]
    exact gives_returnStatement hscope hvalue hrest hword
  | call h =>
    have hcall := h
    cases hcall with
    | mk hname hopening _ =>
      rw [statement_of_leftParen hrest hname hopening]
      exact gives_callStatement h hrest
  | access h =>
    have haccess := h
    cases haccess with
    | field hname hdot | call hname hdot =>
      rw [statement_of_dot hrest hname hdot]
      exact gives_accessStatement h hrest hword
  | assign hname hequal hvalue =>
    rw [statement_of_equal hrest hname hequal]
    exact gives_assignStatement hequal hvalue hrest hword
  | assignField hname hdot hfield hequal hvalue =>
    rw [statement_of_dot hrest hname hdot]
    exact gives_accessStatement_assign hname hdot hfield hequal hvalue hrest hword

end Dispatch

/-! ## Sequences and functions -/

section Sequences

variable {One : List Token → Statement → Prop} {one : Parser Statement} {tokens : List Token}
  {list : List Statement}

/-- Whatever `One` takes for a statement is read as one, as long as a word follows or nothing. -/
def ReadsOne (one : Parser Statement) (One : List Token → Statement → Prop) : Prop :=
  ∀ tokens st rest (cursor : Cursor), One tokens st → cursor.rest = tokens ++ rest →
    StartsWithWord rest → Gives one cursor st rest

theorem gives_statements (hone : ReadsOne one One) (hworded : Worded One)
    (h : Sequence One tokens list) {count : Nat} (hcount : tokens.length ≤ count) {cursor : Cursor}
    (hrest : cursor.rest = tokens) : Gives (statements one count) cursor list [] := by
  induction h generalizing count cursor with
  | nil =>
    cases count with
    | zero => exact gives_pure hrest
    | succ count =>
      rw [statements]
      apply gives_get_bind
      rw [hrest, if_pos (by rfl)]
      exact gives_pure hrest
  | cons hphrase hsequence ih =>
    obtain ⟨first, more, rfl, -⟩ := hworded _ _ hphrase
    cases count with
    | zero => simp at hcount
    | succ count =>
      have hlength := hcount
      rw [List.length_append, List.length_cons] at hlength
      rw [statements]
      apply gives_get_bind
      rw [hrest, if_neg (by simp)]
      apply (hone _ _ _ _ hphrase hrest (hsequence.startsWithWord hworded)).bind
      intro after hafter
      apply (ih (by omega) hafter).bind
      intro after hafter
      exact gives_pure hafter

theorem all_of_sequence (hone : ReadsOne one One) (hworded : Worded One)
    (h : Sequence One tokens list) : all one tokens = .ok list := by
  have hstart : ({ previous := {}, rest := tokens } : Cursor).rest = tokens := rfl
  obtain ⟨cursor', hrun, -⟩ := gives_statements hone hworded h (Nat.le_refl _) hstart
  show (statements one tokens.length _ >>= fun pair => pure pair.1) = _
  rw [hrun]
  rfl

end Sequences

section Functions

variable {resolve : Resolver} {file : Option SourceFile} {tokens : List Token}

theorem readsOne_statement {function : Bool → Parser Statement}
    {F : Bool → List Token → Statement → Prop} (hfunction : ReadsFunctions function F) :
    ReadsOne (statement resolve function) (Phrase resolve F) :=
  fun _ _ _ _ h hrest hword => gives_statement hfunction h hrest hword

theorem readsFunctions_none : ReadsFunctions nestedFunction NoFunction :=
  fun _ _ _ _ _ h => h.elim

theorem body_of_sequence {name : String} {statements : List Statement}
    (h : Sequence (Phrase resolve NoFunction) (tokens.map (Token.inBody name)) statements) :
    body resolve name tokens = .ok (ofStatements statements) := by
  have hall := all_of_sequence (readsOne_statement readsFunctions_none) worded_clause h
  rw [body_eq]
  show (all (statement resolve nestedFunction) (tokens.map (Token.inBody name)) >>= _) = _
  rw [hall]
  rfl

/-- The first closing brace is the one that ends the body. -/
theorem split_at_rightBrace {inner : List Token} {close : Token} (hinner : Unclosed inner)
    (hclose : close.kind = .rightBrace) (rest : List Token) :
    (inner ++ close :: rest).takeWhile (·.kind ≠ .rightBrace) = inner ∧
      (inner ++ close :: rest).dropWhile (·.kind ≠ .rightBrace) = close :: rest := by
  constructor
  · rw [List.takeWhile_append_of_pos (by simpa [Unclosed] using hinner)]
    simp [hclose]
  · rw [List.dropWhile_append_of_pos (by simpa [Unclosed] using hinner)]
    simp [hclose]

theorem readsFunctions_functionStatement :
    ReadsFunctions (functionStatement resolve file) (Function resolve file) := by
  intro exported tokens st rest cursor h hrest
  cases h with
  | @mk keyword name opening brace close list inner params statements hkeyword hscope hname hopening
      hparams hdistinct hbrace hbody hclose =>
    refine ⟨⟨_, _, hrest, hkeyword⟩, ?_⟩
    have hinner : Unclosed inner :=
      fun token htoken => hbody.unclosed (token.inBody name.lexeme) (List.mem_map_of_mem htoken)
    simp only [List.cons_append, List.append_assoc, List.nil_append] at hrest
    apply (gives_next hrest).bind
    intro after hafter
    simp only [hscope]
    apply (gives_expectName _ hafter hname).bind
    intro after hafter
    apply (gives_expect _ hafter hopening).bind
    intro after hafter
    apply (gives_parameters hparams hdistinct hafter).bind
    intro after hafter
    apply (gives_expect _ hafter hbrace).bind
    intro after hafter
    apply gives_get_bind
    obtain ⟨htake, hdrop⟩ := split_at_rightBrace hinner hclose rest
    simp only [hafter, htake, hdrop]
    apply (gives_lift (body_of_sequence hbody) hafter).bind
    intro _ _
    exact ⟨_, rfl, rfl⟩

end Functions

end Parser

/-! ## Programs -/

/-- A program is read from the tokens that the grammar derives it from, and from no others. -/
theorem ofTokens_eq_ok_iff {resolve : Resolver} {file : Option SourceFile} {tokens : List Token}
    {program : Program} : ofTokens resolve file tokens = .ok program ↔
      ∃ statements, program = ofStatements statements ∧
        Sentences resolve file tokens statements := by
  rw [ofTokens_eq]
  constructor
  · intro h
    obtain ⟨statements, hall, hprogram⟩ := exists_of_bind_eq_ok h
    cases hprogram
    exact ⟨statements, rfl, Parser.sequence_of_all
      (fun _ => Parser.takes_statement fun exported _ => Parser.takes_functionStatement exported)
      worded_sentence hall⟩
  · rintro ⟨statements, rfl, hsequence⟩
    have hall := Parser.all_of_sequence
      (Parser.readsOne_statement Parser.readsFunctions_functionStatement) worded_sentence hsequence
    rw [hall]
    rfl

end Scripting.Program
