import Scripting.Proofs.Grammar
import Scripting.Proofs.Provenance

/-!
# What is read follows the grammar

`Parser.Takes` says which tokens a step of reading has taken when it succeeds, and in what relation
they stand to its result. It is put together from the steps of the parser one by one. The result is
that whatever a parser makes of some tokens, the grammar derives from them (`sequence_of_all`,
`takes_statement`, `takes_functionStatement`).
-/

namespace Scripting.Program

open Grammar

namespace Parser

variable {α β : Type} {parser : Parser α} {cursor : Cursor}

/-! ## The tokens that a step takes -/

/-- When the parser succeeds, it has taken tokens that stand in the relation to its result. -/
def Takes (parser : Parser α) (cursor : Cursor) (P : List Token → α → Prop) : Prop :=
  ∀ a cursor', parser cursor = .ok (a, cursor') →
    ∃ used, cursor.rest = used ++ cursor'.rest ∧ P used a

section Rules

variable {P P' : List Token → α → Prop}

theorem takes_pure {a : α} (h : P [] a) : Takes (pure a) cursor P := by
  intro b cursor' hrun
  cases hrun
  exact ⟨[], rfl, h⟩

theorem takes_refuse (cause : Cause) (span : Span) :
    Takes (refuse cause span : Parser α) cursor P := by
  intro a cursor' hrun
  cases hrun

theorem takes_refuseEnd (cause : Cause) : Takes (refuseEnd cause : Parser α) cursor P := by
  intro a cursor' hrun
  cases hrun

theorem get_bind (next : Cursor → Parser β) : (get >>= next) cursor = next cursor cursor := rfl

theorem takes_get_bind {next : Cursor → Parser β} {Q : List Token → β → Prop}
    (h : Takes (next cursor) cursor Q) : Takes (get >>= next) cursor Q := h

theorem Takes.bind {next : α → Parser β} {Q : List Token → β → Prop} (h : Takes parser cursor P)
    (hnext : ∀ used a after, cursor.rest = used ++ after.rest → P used a →
      Takes (next a) after fun more b => Q (used ++ more) b) :
    Takes (parser >>= next) cursor Q := by
  intro b cursor' hrun
  obtain ⟨⟨a, after⟩, hparser, hrun⟩ := exists_of_bind_eq_ok hrun
  obtain ⟨used, hused, hp⟩ := h a after hparser
  obtain ⟨more, hmore, hq⟩ := hnext used a after hused hp b cursor' hrun
  exact ⟨used ++ more, by rw [hused, hmore, List.append_assoc], hq⟩

theorem Takes.imp (h : Takes parser cursor P) (hP : ∀ used a, P used a → P' used a) :
    Takes parser cursor P' := by
  intro a cursor' hrun
  obtain ⟨used, hused, hp⟩ := h a cursor' hrun
  exact ⟨used, hused, hP used a hp⟩

theorem Takes.map {f : α → β} {Q : List Token → β → Prop} (h : Takes parser cursor P)
    (hQ : ∀ used a, P used a → Q used (f a)) : Takes (f <$> parser) cursor Q := by
  rw [map_eq_pure_bind]
  apply h.bind
  intro used a after _ hp
  exact takes_pure (by simpa using hQ used a hp)

end Rules

/-! ## Single tokens -/

theorem next?_of_nil (h : cursor.rest = []) : next? cursor = .ok (none, cursor) := by
  obtain ⟨previous, rest⟩ := cursor
  subst h
  rfl

theorem next?_of_cons {token : Token} {rest : List Token} (h : cursor.rest = token :: rest) :
    next? cursor = .ok (some token, { previous := token.span, rest }) := by
  obtain ⟨previous, tokens⟩ := cursor
  subst h
  rfl

theorem accept_of_kind {kind : TokenKind} {token : Token} {rest : List Token}
    (h : cursor.rest = token :: rest) (hkind : token.kind = kind) :
    accept kind cursor = .ok (true, { previous := token.span, rest }) := by
  show (if cursor.rest.head?.map Token.kind = some kind then _ else _ : Parser Bool) cursor = _
  rw [if_pos (by simp [h, hkind])]
  show (next? cursor >>= _) = _
  rw [next?_of_cons h]
  rfl

theorem accept_of_ne {kind : TokenKind} (h : ∀ token ∈ cursor.rest.head?, token.kind ≠ kind) :
    accept kind cursor = .ok (false, cursor) := by
  show (if cursor.rest.head?.map Token.kind = some kind then _ else _ : Parser Bool) cursor = _
  rw [if_neg (by simpa using h)]
  rfl

theorem takes_next? : Takes next? cursor fun used token? => used = token?.toList := by
  intro token? cursor' hrun
  cases hrest : cursor.rest with
  | nil =>
    rw [next?_of_nil hrest] at hrun
    cases hrun
    exact ⟨[], by simp [hrest], rfl⟩
  | cons token rest =>
    rw [next?_of_cons hrest] at hrun
    cases hrun
    exact ⟨[token], rfl, rfl⟩

theorem takes_next : Takes next cursor fun used token => used = [token] := by
  apply takes_next?.bind
  intro used token? after _ hused
  cases token? with
  | none => exact takes_refuseEnd _
  | some token => exact takes_pure (by simp [hused])

theorem takes_peek?_bind {next : Option Token → Parser β} {Q : List Token → β → Prop}
    (h : Takes (next cursor.rest.head?) cursor Q) : Takes (peek? >>= next) cursor Q := h

theorem takes_peekKind?_bind {next : Option TokenKind → Parser β} {Q : List Token → β → Prop}
    (h : Takes (next (cursor.rest.head?.map Token.kind)) cursor Q) :
    Takes (peekKind? >>= next) cursor Q := h

/-- What `accept` takes and says. -/
inductive Accepted (kind : TokenKind) : List Token → Bool → Prop
  | yes {token : Token} (hkind : token.kind = kind) : Accepted kind [token] true
  | no : Accepted kind [] false

theorem takes_accept (kind : TokenKind) : Takes (accept kind) cursor (Accepted kind) := by
  intro accepted cursor' hrun
  by_cases hhead : ∀ token ∈ cursor.rest.head?, token.kind ≠ kind
  · rw [accept_of_ne hhead] at hrun
    cases hrun
    exact ⟨[], rfl, .no⟩
  · cases hrest : cursor.rest with
    | nil => simp [hrest] at hhead
    | cons token rest =>
      have hkind : token.kind = kind := by simpa [hrest] using hhead
      rw [accept_of_kind hrest hkind] at hrun
      cases hrun
      exact ⟨[token], rfl, .yes hkind⟩

theorem takes_expect (kind : TokenKind) (expected : String) :
    Takes (expect kind expected) cursor fun used token => used = [token] ∧ token.kind = kind := by
  apply takes_next?.bind
  intro used token? after _ hused
  cases token? with
  | none => exact takes_refuseEnd _
  | some token =>
    show Takes (ite _ _ _) after _
    split
    · next hkind => exact takes_pure (by simp [hused, hkind])
    · exact takes_refuse _ _

theorem takes_expectName (expected : String) :
    Takes (expectName expected) cursor fun used token => used = [token] ∧ token.isName := by
  apply (takes_expect _ _).bind
  rintro used token after - ⟨rfl, hkind⟩
  split
  · exact takes_refuse _ _
  · next hkeyword =>
    exact takes_pure ⟨rfl, Token.isName_iff.mpr ⟨hkind, by simpa using hkeyword⟩⟩

/-! ## Lists of arguments and parameters -/

theorem argument_of_isOperand {token : Token}
    (h : ¬ (!token.kind.isOperand || token.keyword?.isSome)) :
    Argument [token] token := by
  have hoperand : token.kind.isOperand ∧ token.keyword? = none := by simpa using h
  cases hkind : token.kind with
  | identifier => exact .name (Token.isName_iff.mpr ⟨hkind, hoperand.2⟩)
  | string | number | boolean => exact .literal (by rw [hkind]; rfl)
  | _ =>
    rw [hkind] at hoperand
    cases hoperand.1

theorem items_of_argumentsFrom {previous : Span} {tokens args : List Token}
    (h : argumentsFrom previous tokens = .ok (args, cursor)) :
    ∃ used, tokens = used ++ cursor.rest ∧ Items Argument used args := by
  fun_induction argumentsFrom previous tokens generalizing args cursor with
  | case1 | case2 | case3 | case6 => cases h
  | case4 _ token hoperand separator rest hkind ih =>
    obtain ⟨⟨inner, after⟩, hinner, hargs⟩ := exists_of_bind_eq_ok h
    cases hargs
    obtain ⟨used, rfl, hitems⟩ := ih hinner
    exact ⟨token :: separator :: used, rfl,
      .more (argument_of_isOperand hoperand) hkind hitems⟩
  | case5 _ token hoperand separator rest hkind =>
    cases h
    exact ⟨[token, separator], rfl, .last (argument_of_isOperand hoperand) hkind⟩

theorem takes_arguments : Takes arguments cursor (Listed Argument) := by
  apply (takes_accept _).bind
  intro used closed after _ haccepted
  cases haccepted with
  | yes hkind => exact takes_pure (.none hkind)
  | no =>
    apply takes_get_bind
    intro args cursor' hrun
    obtain ⟨⟨⟨inner, last⟩, before⟩, hinner, hrun⟩ := exists_of_bind_eq_ok hrun
    cases hfrom : argumentsFrom after.previous after.rest with
    | error e => rw [hfrom] at hinner; cases hinner
    | ok pair =>
      rw [hfrom] at hinner
      cases hinner
      cases hrun
      obtain ⟨used, hused, hitems⟩ := items_of_argumentsFrom hfrom
      exact ⟨used, hused, .some hitems⟩

theorem parameter_typed_of_ok {name colon annotation : Token} {type : ValueType}
    (hname : name.isName) (hcolon : colon.kind = .colon)
    (htype : parameterType annotation = .ok type) :
    Parameter [name, colon, annotation] { name := name.lexeme, type := some type } := by
  unfold parameterType at htype
  split at htype
  · next h =>
    cases htype
    exact .typed hname hcolon h
  · cases htype

/-- The names of parameters are distinct and differ from those that are taken. -/
def Distinct (taken : List String) (params : List Param) : Prop :=
  (params.map Param.name).Nodup ∧ ∀ param ∈ params, param.name ∉ taken

theorem distinct_singleton {taken : List String} {param : Param} (hnew : param.name ∉ taken) :
    Distinct taken [param] := by
  simpa [Distinct] using hnew

theorem distinct_cons {taken : List String} {param : Param} {params : List Param} :
    Distinct taken (param :: params) ↔
      param.name ∉ taken ∧ Distinct (param.name :: taken) params := by
  simp only [Distinct, List.map_cons, List.nodup_cons, List.mem_map, List.mem_cons, not_or]
  grind

theorem items_of_parametersFrom {taken : List String} {previous : Span} {tokens : List Token}
    {params : List Param} (h : parametersFrom taken previous tokens = .ok (params, cursor)) :
    (∃ used, tokens = used ++ cursor.rest ∧ Items Parameter used params) ∧
      Distinct taken params := by
  fun_induction parametersFrom taken previous tokens generalizing params cursor with
  | case1 | case2 | case3 | case4 | case5 | case9 => cases h
  | case6 taken _ name hname hnew colon hcolon annotation rest ih =>
    obtain ⟨type, htype, h⟩ := exists_of_bind_eq_ok h
    have hparam := parameter_typed_of_ok (by simpa using hname) hcolon htype
    cases rest with
    | nil => cases h
    | cons separator rest =>
      cases hkind : separator.kind with
      | comma =>
        simp only [hkind] at h
        obtain ⟨⟨inner, last⟩, hinner, hparams⟩ := exists_of_bind_eq_ok h
        cases hparams
        obtain ⟨⟨used, rfl, hitems⟩, hdistinct⟩ := ih hinner
        exact ⟨⟨name :: colon :: annotation :: separator :: used, rfl, .more hparam hkind hitems⟩,
          distinct_cons.mpr ⟨hnew, hdistinct⟩⟩
      | rightParen =>
        simp only [hkind] at h
        cases h
        exact ⟨⟨[name, colon, annotation, separator], rfl, .last hparam hkind⟩,
          distinct_singleton hnew⟩
      | _ =>
        simp only [hkind] at h
        cases h
  | case7 taken _ name hname hnew separator rest hcomma ih =>
    obtain ⟨⟨inner, last⟩, hinner, hparams⟩ := exists_of_bind_eq_ok h
    cases hparams
    obtain ⟨⟨used, rfl, hitems⟩, hdistinct⟩ := ih hinner
    exact ⟨⟨name :: separator :: used, rfl, .more (.plain (by simpa using hname)) hcomma hitems⟩,
      distinct_cons.mpr ⟨hnew, hdistinct⟩⟩
  | case8 taken _ name hname hnew separator rest hclose =>
    cases h
    exact ⟨⟨[name, separator], rfl, .last (Parameter.plain (by simpa using hname)) hclose⟩,
      distinct_singleton hnew⟩

theorem takes_parameters : Takes parameters cursor fun used params =>
    Listed Parameter used params ∧ (params.map Param.name).Nodup := by
  apply (takes_accept _).bind
  intro used closed after _ haccepted
  cases haccepted with
  | yes hkind => exact takes_pure ⟨.none hkind, List.nodup_nil⟩
  | no =>
    apply takes_get_bind
    intro params cursor' hrun
    obtain ⟨⟨⟨inner, last⟩, before⟩, hinner, hrun⟩ := exists_of_bind_eq_ok hrun
    cases hfrom : parametersFrom [] after.previous after.rest with
    | error e => rw [hfrom] at hinner; cases hinner
    | ok pair =>
      rw [hfrom] at hinner
      cases hinner
      cases hrun
      obtain ⟨⟨used, hused, hitems⟩, hdistinct⟩ := items_of_parametersFrom hfrom
      exact ⟨used, hused, .some hitems, hdistinct.1⟩

/-! ## Values -/

theorem takes_call {name : Token} (hname : name.isName) :
    Takes (call name) cursor fun used call => CallPhrase (name :: used) call := by
  apply (takes_expect _ _).bind
  rintro - opening after - ⟨rfl, hopening⟩
  apply takes_arguments.bind
  intro list args after _ hargs
  exact takes_pure (by simpa using CallPhrase.mk hname hopening hargs)

theorem takes_access {name : Token} (hname : name.isName) :
    Takes (access name) cursor fun used access => AccessPhrase (name :: used) access := by
  apply (takes_expect _ _).bind
  rintro - dot after - ⟨rfl, hdot⟩
  apply takes_next.bind
  rintro - field after - rfl
  split
  · exact takes_refuse _ _
  · next hfield =>
    have hfield : field.isName := by simpa using hfield
    apply (takes_accept _).bind
    intro used called after _ haccepted
    cases haccepted with
    | yes hopening =>
      have hsome : Takes (some <$> arguments) after fun used args =>
          ∃ list, args = some list ∧ Listed Argument used list :=
        takes_arguments.map fun used args hargs => ⟨args, rfl, hargs⟩
      apply hsome.bind
      rintro list - after - ⟨args, rfl, hargs⟩
      exact takes_pure (by simpa using AccessPhrase.call hname hdot hfield hopening hargs)
    | no => exact takes_pure (AccessPhrase.field hname hdot hfield)

theorem takes_value : Takes value cursor ValuePhrase := by
  apply takes_next?.bind
  intro used token? after _ hused
  cases token? with
  | none => exact takes_refuseEnd _
  | some token =>
    obtain rfl : used = [token] := hused
    show Takes (ite _ _ _) after _
    split
    · next hliteral => exact takes_pure (.literal hliteral)
    · split
      · next hname =>
        apply takes_peekKind?_bind
        split
        · exact (takes_call hname).map fun used call hcall => .call hcall
        · exact (takes_access hname).map fun used access haccess => .access haccess
        · exact takes_pure (.reference hname)
      · exact takes_refuse _ _

/-! ## Statements -/

section Statements

variable {resolve : Resolver} {F : Bool → List Token → Statement → Prop}

/-- The next token has the property. -/
def NextIs (P : Token → Prop) (cursor : Cursor) : Prop :=
  ∃ token rest, cursor.rest = token :: rest ∧ P token

theorem takes_next_of_nextIs {P : Token → Prop} (hnext : NextIs P cursor) :
    Takes next cursor fun used token => used = [token] ∧ P token := by
  intro token cursor' hrun
  obtain ⟨used, hused, rfl⟩ := takes_next token cursor' hrun
  obtain ⟨first, rest, hrest, hP⟩ := hnext
  rw [hused] at hrest
  obtain ⟨rfl, -⟩ := List.cons.inj hrest
  exact ⟨[token], hused, rfl, hP⟩

/-- The next token is the given keyword. -/
def AtKeyword (keyword : Keyword) : Cursor → Prop :=
  NextIs fun token => token.keyword? = some keyword

/-- The next token is free to name something. -/
def AtName : Cursor → Prop := NextIs fun token => token.isName

theorem takes_importStatement (exported : Bool) (hat : AtKeyword .imports cursor) :
    Takes (importStatement resolve exported) cursor (Import resolve exported) := by
  apply (takes_next_of_nextIs hat).bind
  rintro - keyword after - ⟨rfl, hkeyword⟩
  apply takes_next.bind
  rintro - target after - rfl
  split
  · exact takes_refuse _ _
  · next htarget =>
    intro st cursor' hrun
    obtain ⟨⟨form, before⟩, hlift, hrun⟩ := exists_of_bind_eq_ok hrun
    cases hform : resolve target with
    | error e => rw [hform] at hlift; cases hlift
    | ok other =>
      rw [hform] at hlift
      cases hlift
      cases hrun
      exact ⟨[], rfl, .mk hkeyword (by simpa using htarget) hform⟩

theorem takes_exportStatement {function : Bool → Parser Statement}
    (hfunction : ∀ exported cursor, AtKeyword .function cursor →
      Takes (function exported) cursor (F exported))
    (hat : AtKeyword .exports cursor) :
    Takes (exportStatement resolve function) cursor (Phrase resolve F) := by
  apply (takes_next_of_nextIs hat).bind
  rintro - exporter after - ⟨rfl, hexporter⟩
  apply takes_peek?_bind
  split
  · exact takes_refuse _ _
  · next token hhead =>
    obtain ⟨rest, hrest⟩ := List.head?_eq_some_iff.mp hhead
    split
    · next hkeyword =>
      exact (takes_importStatement true ⟨token, rest, hrest, hkeyword⟩).imp
        fun used st h => .exportsImport hexporter h
    · next hkeyword =>
      exact (hfunction true after ⟨token, rest, hrest, hkeyword⟩).imp
        fun used st h => .exportsFunction hexporter h
    · exact takes_refuse _ _

theorem takes_declareStatement (hat : AtKeyword .declares cursor) :
    Takes declareStatement cursor (Phrase resolve F) := by
  apply (takes_next_of_nextIs hat).bind
  rintro - keyword after - ⟨rfl, hkeyword⟩
  apply (takes_expectName _).bind
  rintro - name after - ⟨rfl, hname⟩
  apply (takes_expect _ _).bind
  rintro - equal after - ⟨rfl, hequal⟩
  apply takes_value.bind
  intro tokens value after _ hvalue
  exact takes_pure (by simpa using Phrase.declare hkeyword hname hequal hvalue)

theorem takes_returnStatement (hat : AtKeyword .returns cursor) :
    Takes returnStatement cursor (Phrase resolve F) := by
  apply (takes_next_of_nextIs hat).bind
  rintro - keyword after - ⟨rfl, hkeyword⟩
  split
  · exact takes_refuse _ _
  · next hscope =>
    apply takes_value.bind
    intro tokens value after _ hvalue
    exact takes_pure (by simpa using Phrase.returns hkeyword (by simpa using hscope) hvalue)

theorem takes_callStatement (hat : AtName cursor) :
    Takes callStatement cursor (Phrase resolve F) := by
  apply (takes_next_of_nextIs hat).bind
  rintro - name after - ⟨rfl, hname⟩
  apply (takes_call hname).bind
  intro tokens call after _ hcall
  exact takes_pure (by simpa using Phrase.call hcall)

theorem takes_assignStatement (hat : AtName cursor) :
    Takes assignStatement cursor (Phrase resolve F) := by
  apply (takes_next_of_nextIs hat).bind
  rintro - name after - ⟨rfl, hname⟩
  apply (takes_expect _ _).bind
  rintro - equal after - ⟨rfl, hequal⟩
  apply takes_value.bind
  intro tokens value after _ hvalue
  exact takes_pure (by simpa using Phrase.assign hname hequal hvalue)

theorem takes_accessStatement (hat : AtName cursor) :
    Takes accessStatement cursor (Phrase resolve F) := by
  apply (takes_next_of_nextIs hat).bind
  rintro - name after - ⟨rfl, hname⟩
  apply (takes_access hname).bind
  intro used access after _ haccess
  have hplain : Phrase resolve F ([name] ++ (used ++ []))
      (statementAt name (.access access) false) := by
    simpa using Phrase.access haccess
  split
  · next hargs =>
    apply (takes_accept _).bind
    intro more accepted after _ haccepted
    cases haccepted with
    | yes hequal =>
      apply takes_value.bind
      intro tokens value after _ hvalue
      cases haccess with
      | field _ hdot hfield =>
        exact takes_pure (by simpa using Phrase.assignField hname hdot hfield hequal hvalue)
      | call => cases hargs
    | no => exact takes_pure hplain
  · exact takes_pure hplain

theorem takes_statement {function : Bool → Parser Statement}
    (hfunction : ∀ exported cursor, AtKeyword .function cursor →
      Takes (function exported) cursor (F exported)) :
    Takes (statement resolve function) cursor (Phrase resolve F) := by
  apply takes_get_bind
  split
  · exact takes_refuseEnd _
  · next token rest hrest =>
    split
    · next hkeyword =>
      exact (takes_importStatement false ⟨token, rest, hrest, hkeyword⟩).imp fun _ _ => .imports
    · next hkeyword => exact takes_exportStatement hfunction ⟨token, rest, hrest, hkeyword⟩
    · next hkeyword =>
      exact (hfunction false cursor ⟨token, rest, hrest, hkeyword⟩).imp fun _ _ => .function
    · next hkeyword => exact takes_declareStatement ⟨token, rest, hrest, hkeyword⟩
    · next hkeyword => exact takes_returnStatement ⟨token, rest, hrest, hkeyword⟩
    · next hkeyword =>
      split
      · next hkind _ =>
        exact takes_callStatement ⟨token, rest, hrest, Token.isName_iff.mpr ⟨hkind, hkeyword⟩⟩
      · next hkind _ =>
        exact takes_accessStatement ⟨token, rest, hrest, Token.isName_iff.mpr ⟨hkind, hkeyword⟩⟩
      · next hkind _ =>
        exact takes_assignStatement ⟨token, rest, hrest, Token.isName_iff.mpr ⟨hkind, hkeyword⟩⟩
      · exact takes_refuse _ _

end Statements

/-! ## Sequences and functions -/

section Sequences

variable {One : List Token → Statement → Prop} {one : Parser Statement}

/-- There is enough fuel for all tokens, since every statement takes one at least. -/
theorem sequence_of_statements (cursor : Cursor) (hone : ∀ cursor, Takes one cursor One)
    (hworded : Worded One) {count : Nat} {list : List Statement}
    {cursor' : Cursor} (hcount : cursor.rest.length ≤ count)
    (h : statements one count cursor = .ok (list, cursor')) : Sequence One cursor.rest list := by
  induction count generalizing cursor list with
  | zero =>
    cases h
    rw [List.length_eq_zero_iff.mp (Nat.le_zero.mp hcount)]
    exact .nil
  | succ count ih =>
    rw [statements, get_bind] at h
    split at h
    · next hempty =>
      cases h
      rw [List.isEmpty_iff.mp hempty]
      exact .nil
    · obtain ⟨⟨first, after⟩, hfirst, h⟩ := exists_of_bind_eq_ok h
      obtain ⟨⟨rest, last⟩, hrest, h⟩ := exists_of_bind_eq_ok h
      cases h
      obtain ⟨used, hused, hphrase⟩ := hone cursor first after hfirst
      have hlength : after.rest.length ≤ count := by
        obtain ⟨word, more, rfl, -⟩ := hworded used first hphrase
        rw [hused, List.length_append, List.length_cons] at hcount
        omega
      rw [hused]
      exact .cons hphrase (ih after hlength hrest)

theorem sequence_of_all (hone : ∀ cursor, Takes one cursor One) (hworded : Worded One)
    {tokens : List Token} {list : List Statement} (h : all one tokens = .ok list) :
    Sequence One tokens list := by
  obtain ⟨⟨list, after⟩, hrun, hlist⟩ := exists_of_bind_eq_ok
    (x := statements one tokens.length { previous := {}, rest := tokens })
    (f := fun pair => .ok pair.1) h
  cases hlist
  exact sequence_of_statements { previous := {}, rest := tokens } hone hworded (Nat.le_refl _) hrun

end Sequences

section Functions

variable {resolve : Resolver} {file : Option SourceFile}

theorem takes_nestedFunction (exported : Bool) :
    Takes (nestedFunction exported) cursor (NoFunction exported) := by
  apply takes_next.bind
  intro used keyword after _ _
  exact takes_refuse _ _

theorem sequence_of_body {name : String} {tokens : List Token} {program : Program}
    (h : body resolve name tokens = .ok program) :
    ∃ statements, program = ofStatements statements ∧
      Sequence (Phrase resolve NoFunction) (tokens.map (Token.inBody name)) statements := by
  rw [body_eq] at h
  obtain ⟨list, hall, hprogram⟩ := exists_of_bind_eq_ok h
  cases hprogram
  exact ⟨list, rfl, sequence_of_all
    (fun _ => takes_statement fun exported _ _ => takes_nestedFunction exported) worded_clause hall⟩

theorem takes_functionStatement (exported : Bool) (hat : AtKeyword .function cursor) :
    Takes (functionStatement resolve file exported) cursor (Function resolve file exported) := by
  apply (takes_next_of_nextIs hat).bind
  rintro - keyword after - ⟨rfl, hkeyword⟩
  split
  · exact takes_refuse _ _
  · next hscope =>
    apply (takes_expectName _).bind
    rintro - name after - ⟨rfl, hname⟩
    apply (takes_expect _ _).bind
    rintro - opening after - ⟨rfl, hopening⟩
    apply takes_parameters.bind
    rintro list params after - ⟨hparams, hdistinct⟩
    apply (takes_expect _ _).bind
    rintro - brace after - ⟨rfl, hbrace⟩
    apply takes_get_bind
    split
    · exact takes_refuseEnd _
    · next close rest hclose =>
      intro st cursor' hrun
      obtain ⟨⟨program, before⟩, hlift, hrun⟩ := exists_of_bind_eq_ok hrun
      cases hbody : body resolve name.lexeme (after.rest.takeWhile (·.kind ≠ .rightBrace)) with
      | error e => rw [hbody] at hlift; cases hlift
      | ok other =>
        rw [hbody] at hlift
        cases hlift
        cases hrun
        obtain ⟨statements, rfl, hsequence⟩ := sequence_of_body hbody
        have hkind : close.kind = .rightBrace := by
          have hhead := List.head?_dropWhile_not (·.kind ≠ .rightBrace) after.rest
          rw [hclose] at hhead
          simpa using hhead
        refine ⟨after.rest.takeWhile (·.kind ≠ .rightBrace) ++ [close], ?_, ?_⟩
        · rw [List.append_assoc, List.singleton_append, ← hclose, List.takeWhile_append_dropWhile]
        · simpa using
            Function.mk hkeyword hscope hname hopening hparams hdistinct hbrace hsequence hkind

end Functions

end Parser

end Scripting.Program
