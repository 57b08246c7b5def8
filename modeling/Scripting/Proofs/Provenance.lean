import Scripting.Proofs.StatementConduct

/-!
# Where statements are written

The places of a program are counted within the text of one file, and they do not say of which. That
is known only from the way in which the program was loaded. A loader reads the text of one file, the
script or an imported one (`Loader.file`), and all statements that it puts together are written
there: those of the program and those in the bodies of its functions (`Program.Holds`). The
statements of an imported file are read by another loader, from the text of that file.

The main results say how `Statement.WrittenIn` passes from a statement to the statements inside it,
and that all places of a statement are places of tokens of the text that it is written in.
-/

namespace Scripting

/-! ## Reading tokens at given places -/

namespace Program.Parser

variable {α β : Type} {spans : List Span} {Q : α → Prop} {parser : Parser α}

/-- All of the tokens stand at these places. -/
def Within (spans : List Span) (tokens : List Token) : Prop := ∀ token ∈ tokens, token.span ∈ spans

theorem within_cons {token : Token} {tokens : List Token} :
    Within spans (token :: tokens) ↔ token.span ∈ spans ∧ Within spans tokens :=
  List.forall_mem_cons

/-- As long as all tokens stand at these places, so do those that the parser leaves, and what it
gives has the property. -/
def Reads (spans : List Span) (parser : Parser α) (Q : α → Prop) : Prop :=
  ∀ cursor a cursor', Within spans cursor.rest → parser cursor = .ok (a, cursor') →
    Within spans cursor'.rest ∧ Q a

theorem reads_pure {a : α} (h : Q a) : Reads spans (pure a) Q := by
  intro cursor b cursor' hwithin hrun
  cases hrun
  exact ⟨hwithin, h⟩

theorem reads_refuse (cause : Cause) (span : Span) :
    Reads spans (refuse cause span : Parser α) Q := by
  intro cursor a cursor' _ hrun
  cases hrun

theorem reads_lift {x : Except Error α} (h : ∀ a, x = .ok a → Q a) :
    Reads spans (liftM x : Parser α) Q := by
  intro cursor a cursor' hwithin hrun
  cases x with
  | ok b => cases hrun; exact ⟨hwithin, h a rfl⟩
  | error e => cases hrun

theorem Reads.bind {P : α → Prop} {next : α → Parser β} {Q : β → Prop} (h : Reads spans parser P)
    (hnext : ∀ a, P a → Reads spans (next a) Q) : Reads spans (parser >>= next) Q := by
  intro cursor b cursor' hwithin hrun
  obtain ⟨pair, hparser, hrun⟩ := exists_of_bind_eq_ok hrun
  obtain ⟨hrest, hp⟩ := h cursor pair.1 pair.2 hwithin hparser
  exact hnext pair.1 hp pair.2 b cursor' hrest hrun

theorem Reads.map {P : α → Prop} {f : α → β} {Q : β → Prop} (h : Reads spans parser P)
    (hf : ∀ a, P a → Q (f a)) : Reads spans (f <$> parser) Q := by
  rw [map_eq_pure_bind]
  exact h.bind fun a ha => reads_pure (hf a ha)

theorem reads_get : Reads spans (get : Parser Cursor) fun cursor => Within spans cursor.rest := by
  intro cursor a cursor' hwithin hrun
  cases hrun
  exact ⟨hwithin, hwithin⟩

theorem reads_set {cursor : Cursor} (h : Within spans cursor.rest) :
    Reads spans (set cursor : Parser PUnit) fun _ => True := by
  intro before a cursor' _ hrun
  cases hrun
  exact ⟨h, trivial⟩

theorem reads_refuseEnd (cause : Cause) : Reads spans (refuseEnd cause : Parser α) Q :=
  reads_get.bind fun _ _ => reads_refuse _ _

/-! ## Single tokens -/

theorem reads_peek? : Reads spans peek? fun _ => True :=
  reads_get.bind fun _ _ => reads_pure trivial

theorem reads_peekKind? : Reads spans peekKind? fun _ => True :=
  reads_peek?.bind fun _ _ => reads_pure trivial

theorem reads_next? : Reads spans next?
    fun token? => ∀ token, token? = some token → token.span ∈ spans := by
  refine reads_get.bind fun cursor hwithin => ?_
  split
  · exact reads_pure nofun
  · next token rest hrest =>
    rw [hrest] at hwithin
    obtain ⟨htoken, hafter⟩ := within_cons.mp hwithin
    refine (reads_set hafter).bind fun _ _ => reads_pure ?_
    rintro _ ⟨⟩
    exact htoken

theorem reads_next : Reads spans next fun token => token.span ∈ spans := by
  refine reads_next?.bind fun token? htoken => ?_
  cases token? with
  | some token => exact reads_pure (htoken token rfl)
  | none => exact reads_refuseEnd _

theorem reads_accept (kind : TokenKind) : Reads spans (accept kind) fun _ => True := by
  refine reads_peekKind?.bind fun kind? _ => ?_
  split
  · exact reads_next?.bind fun _ _ => reads_pure trivial
  · exact reads_pure trivial

theorem reads_expect (kind : TokenKind) (expected : String) :
    Reads spans (expect kind expected) fun token => token.span ∈ spans := by
  refine reads_next?.bind fun token? htoken => ?_
  cases token? with
  | some token =>
    show Reads spans (ite _ _ _) _
    split
    · exact reads_pure (htoken token rfl)
    · exact reads_refuse _ _
  | none => exact reads_refuseEnd _

theorem reads_expectName (expected : String) :
    Reads spans (expectName expected) fun token => token.span ∈ spans := by
  refine (reads_expect _ _).bind fun token htoken => ?_
  split
  · exact reads_refuse _ _
  · exact reads_pure htoken

/-! ## Lists of arguments and parameters -/

theorem within_argumentsFrom {previous : Span} {tokens args : List Token} {cursor : Cursor}
    (hwithin : Within spans tokens) (h : argumentsFrom previous tokens = .ok (args, cursor)) :
    Within spans args ∧ Within spans cursor.rest := by
  fun_induction argumentsFrom previous tokens generalizing args cursor with
  | case1 | case2 | case3 => cases h
  | case4 _ token _ separator rest _ ih =>
    obtain ⟨htoken, hrest⟩ := within_cons.mp hwithin
    obtain ⟨⟨inner, after⟩, hinner, hargs⟩ := exists_of_bind_eq_ok h
    cases hargs
    obtain ⟨hargs, hafter⟩ := ih (within_cons.mp hrest).2 hinner
    exact ⟨within_cons.mpr ⟨htoken, hargs⟩, hafter⟩
  | case5 _ token _ separator rest =>
    cases h
    obtain ⟨htoken, hrest⟩ := within_cons.mp hwithin
    exact ⟨List.forall_mem_singleton.mpr htoken, (within_cons.mp hrest).2⟩
  | case6 => cases h

theorem reads_arguments : Reads spans arguments (Within spans) := by
  refine (reads_accept _).bind fun closed _ => ?_
  split
  · exact reads_pure fun _ htoken => absurd htoken List.not_mem_nil
  · refine reads_get.bind fun cursor hwithin => ?_
    refine (reads_lift fun _ h => within_argumentsFrom hwithin h).bind fun pair hpair => ?_
    exact (reads_set hpair.2).bind fun _ _ => reads_pure hpair.1

theorem within_parametersFrom {taken : List String} {previous : Span} {tokens : List Token}
    {params : List Param} {cursor : Cursor} (hwithin : Within spans tokens)
    (h : parametersFrom taken previous tokens = .ok (params, cursor)) :
    Within spans cursor.rest := by
  fun_induction parametersFrom taken previous tokens generalizing params cursor with
  | case1 | case2 | case3 | case4 | case5 | case9 => cases h
  | case6 _ _ name _ _ separator _ annotation rest ih =>
    have hrest := (within_cons.mp (within_cons.mp (within_cons.mp hwithin).2).2).2
    obtain ⟨type, -, h⟩ := exists_of_bind_eq_ok h
    cases rest with
    | nil => cases h
    | cons separator rest =>
      have hafter := (within_cons.mp hrest).2
      dsimp only at h
      split at h
      · obtain ⟨⟨inner, last⟩, hinner, hparams⟩ := exists_of_bind_eq_ok h
        cases hparams
        exact ih hafter hinner
      · cases h
        exact hafter
      · cases h
  | case7 _ _ name _ _ separator rest _ ih =>
    obtain ⟨⟨inner, last⟩, hinner, hparams⟩ := exists_of_bind_eq_ok h
    cases hparams
    exact ih (within_cons.mp (within_cons.mp hwithin).2).2 hinner
  | case8 =>
    cases h
    exact (within_cons.mp (within_cons.mp hwithin).2).2

theorem reads_parameters : Reads spans parameters fun _ => True := by
  refine (reads_accept _).bind fun closed _ => ?_
  split
  · exact reads_pure trivial
  · refine reads_get.bind fun cursor hwithin => ?_
    refine (reads_lift fun _ h => within_parametersFrom hwithin h).bind fun pair hpair => ?_
    exact (reads_set hpair).bind fun _ _ => reads_pure trivial

/-! ## Values -/

theorem cons_map_span_subset {span : Span} {tokens : List Token} (hspan : span ∈ spans)
    (htokens : Within spans tokens) : span :: tokens.map Token.span ⊆ spans :=
  List.cons_subset.mpr ⟨hspan, List.forall_mem_map.mpr htokens⟩

theorem reads_call {name : Token} (hname : name.span ∈ spans) :
    Reads spans (call name) fun call => call.spans ⊆ spans :=
  (reads_expect _ _).bind fun _ _ => reads_arguments.bind fun _ hargs =>
    reads_pure (cons_map_span_subset hname hargs)

theorem reads_access {name : Token} (hname : name.span ∈ spans) :
    Reads spans (access name) fun access => access.spans ⊆ spans := by
  refine (reads_expect _ _).bind fun _ _ => reads_next.bind fun field _ => ?_
  split
  · exact reads_refuse _ _
  · refine (reads_accept _).bind fun called _ => ?_
    have hsome : Reads spans (some <$> arguments) fun args => Within spans (args.getD []) :=
      reads_arguments.map fun _ hargs => hargs
    have hnone : Reads spans (pure none : Parser (Option (List Token)))
        fun args => Within spans (args.getD []) :=
      reads_pure fun _ htoken => absurd htoken List.not_mem_nil
    dsimp only
    split
    · exact hsome.bind fun _ hargs => reads_pure (cons_map_span_subset hname hargs)
    · exact hnone.bind fun _ hargs => reads_pure (cons_map_span_subset hname hargs)

theorem reads_value : Reads spans value fun value => value.spans ⊆ spans := by
  refine reads_next?.bind fun token? htoken => ?_
  cases token? with
  | none => exact reads_refuseEnd _
  | some token =>
    have hspan := htoken token rfl
    have hown : [token.span] ⊆ spans := List.cons_subset.mpr ⟨hspan, List.nil_subset spans⟩
    show Reads spans (ite _ _ _) _
    split
    · exact reads_pure hown
    · split
      · refine reads_peekKind?.bind fun kind? _ => ?_
        split
        · exact (reads_call hspan).map fun _ h => h
        · exact (reads_access hspan).map fun _ h => h
        · exact reads_pure hown
      · exact reads_refuse _ _

/-! ## Statements -/

/-- The statement is written at these places. If it imports a file, the resolver has found that
file, and if it declares a function, the function has the given property. -/
structure Sourced (resolve : Resolver) (spans : List Span) (F : Declaration → Prop)
    (st : Statement) : Prop where
  places : st.spans ⊆ spans
  imports : ∀ file program, st.form = .useFile file program → ∃ target, resolve target = .ok st.form
  functions : ∀ declaration, st.form = .function declaration → F declaration

variable {resolve : Resolver} {F : Declaration → Prop}

/-- A statement that neither imports nor declares a function. -/
theorem sourced_of_plain (form : Form) {token : Token} (htoken : token.span ∈ spans)
    (hform : form.spans ⊆ spans) (hplain : ¬ form.IsExport) :
    Sourced resolve spans F (statementAt token form false) := by
  refine ⟨List.cons_subset.mpr ⟨htoken, hform⟩, ?_, ?_⟩
  · rintro file program (rfl : form = _)
    exact absurd trivial hplain
  · rintro declaration (rfl : form = _)
    exact absurd trivial hplain

/-- The resolver gives nothing but imports. -/
def ResolvesImports (resolve : Resolver) : Prop :=
  ∀ target form, resolve target = .ok form → form.Imports

theorem reads_importStatement (hresolve : ResolvesImports resolve) (exported : Bool) :
    Reads spans (importStatement resolve exported) (Sourced resolve spans F) := by
  refine reads_next.bind fun keyword hkeyword => reads_next.bind fun target _ => ?_
  split
  · exact reads_refuse _ _
  · refine (reads_lift fun form h => h).bind fun form hform => reads_pure ?_
    have himports := hresolve target form hform
    cases form with
    | useModule | useFile =>
      exact ⟨List.cons_subset.mpr ⟨hkeyword, List.nil_subset spans⟩,
        fun _ _ _ => ⟨target, hform⟩, nofun⟩
    | _ => cases himports

theorem reads_exportStatement (hresolve : ResolvesImports resolve)
    {function : Bool → Parser Statement}
    (hfunction : ∀ exported, Reads spans (function exported) (Sourced resolve spans F)) :
    Reads spans (exportStatement resolve function) (Sourced resolve spans F) := by
  refine reads_next.bind fun keyword _ => reads_peek?.bind fun token? _ => ?_
  split
  · exact reads_refuse _ _
  · split
    · exact reads_importStatement hresolve true
    · exact hfunction true
    · exact reads_refuse _ _

theorem reads_declareStatement : Reads spans declareStatement (Sourced resolve spans F) := by
  refine reads_next.bind fun keyword hkeyword => (reads_expectName _).bind fun name _ =>
    (reads_expect _ _).bind fun _ _ => reads_value.bind fun value hvalue => reads_pure ?_
  exact sourced_of_plain (.declare name.lexeme value) hkeyword hvalue id

theorem reads_returnStatement : Reads spans returnStatement (Sourced resolve spans F) := by
  refine reads_next.bind fun keyword hkeyword => ?_
  split
  · exact reads_refuse _ _
  · refine reads_value.bind fun value hvalue => reads_pure ?_
    exact sourced_of_plain (.returns value) hkeyword hvalue id

theorem reads_callStatement : Reads spans callStatement (Sourced resolve spans F) := by
  refine reads_next.bind fun name hname => (reads_call hname).bind fun call hcall => reads_pure ?_
  exact sourced_of_plain (.call call) hname hcall id

theorem reads_accessStatement : Reads spans accessStatement (Sourced resolve spans F) := by
  refine reads_next.bind fun name hname => (reads_access hname).bind fun access haccess => ?_
  have hplain : Sourced resolve spans F (statementAt name (.access access) false) :=
    sourced_of_plain (.access access) hname haccess id
  split
  · refine (reads_accept _).bind fun accepted _ => ?_
    split
    · refine reads_value.bind fun value hvalue => reads_pure ?_
      exact sourced_of_plain (.assign (.field access.module access.field) value) hname hvalue id
    · exact reads_pure hplain
  · exact reads_pure hplain

theorem reads_assignStatement : Reads spans assignStatement (Sourced resolve spans F) := by
  refine reads_next.bind fun name hname => (reads_expect _ _).bind fun _ _ =>
    reads_value.bind fun value hvalue => reads_pure ?_
  exact sourced_of_plain (.assign (.var name.lexeme) value) hname hvalue id

theorem reads_statement (hresolve : ResolvesImports resolve) {function : Bool → Parser Statement}
    (hfunction : ∀ exported, Reads spans (function exported) (Sourced resolve spans F)) :
    Reads spans (statement resolve function) (Sourced resolve spans F) := by
  refine reads_get.bind fun cursor _ => ?_
  split
  · exact reads_refuseEnd _
  · split
    · exact reads_importStatement hresolve false
    · exact reads_exportStatement hresolve hfunction
    · exact hfunction false
    · exact reads_declareStatement
    · exact reads_returnStatement
    · split
      · exact reads_callStatement
      · exact reads_accessStatement
      · exact reads_assignStatement
      · exact reads_refuse _ _

theorem reads_statements {one : Parser Statement} {P : Statement → Prop} (h : Reads spans one P)
    (count : Nat) : Reads spans (statements one count) fun list => ∀ st ∈ list, P st := by
  induction count with
  | zero => exact reads_pure fun _ hst => absurd hst List.not_mem_nil
  | succ count ih =>
    refine reads_get.bind fun cursor _ => ?_
    split
    · exact reads_pure fun _ hst => absurd hst List.not_mem_nil
    · refine h.bind fun first hfirst => ih.bind fun rest hrest => ?_
      exact reads_pure (List.forall_mem_cons.mpr ⟨hfirst, hrest⟩)

theorem forall_mem_of_all {one : Parser Statement} {P : Statement → Prop} (h : Reads spans one P)
    {tokens : List Token} (hwithin : Within spans tokens) {list : List Statement}
    (hall : all one tokens = .ok list) : ∀ st ∈ list, P st := by
  obtain ⟨pair, hrun, hlist⟩ := exists_of_bind_eq_ok
    (x := statements one tokens.length { previous := {}, rest := tokens })
    (f := fun pair => .ok pair.1) hall
  cases hlist
  exact (reads_statements h _ { previous := {}, rest := tokens } _ _ hwithin hrun).2

/-! ## Functions -/

theorem reads_nestedFunction (exported : Bool) :
    Reads spans (nestedFunction exported) (Sourced resolve spans F) :=
  reads_next.bind fun _ _ => reads_refuse _ _

/-- The tokens of a body are marked with the name of the function, which does not move them. -/
theorem sourced_of_body (hresolve : ResolvesImports resolve) {name : String} {tokens : List Token}
    (hwithin : Within spans tokens) {program : Program}
    (h : body resolve name tokens = .ok program) :
    ∀ st ∈ program.statements, Sourced resolve spans (fun _ => False) st := by
  rw [body_eq] at h
  obtain ⟨list, hall, hprogram⟩ := exists_of_bind_eq_ok h
  cases hprogram
  refine forall_mem_of_all (reads_statement hresolve reads_nestedFunction) ?_ hall
  exact List.forall_mem_map.mpr hwithin

/-- The function is declared in the file, and its body is written at these places. There are no
functions inside. -/
def Declares (resolve : Resolver) (spans : List Span) (file : Option SourceFile)
    (declaration : Declaration) : Prop :=
  declaration.file = file ∧
    ∀ st ∈ declaration.body.statements, Sourced resolve spans (fun _ => False) st

theorem reads_functionStatement (hresolve : ResolvesImports resolve) (file : Option SourceFile)
    (exported : Bool) : Reads spans (functionStatement resolve file exported)
      (Sourced resolve spans (Declares resolve spans file)) := by
  refine reads_next.bind fun keyword hkeyword => ?_
  split
  · exact reads_refuse _ _
  · refine (reads_expectName _).bind fun name hname => (reads_expect _ _).bind fun _ _ =>
      reads_parameters.bind fun params _ => (reads_expect _ _).bind fun _ _ =>
        reads_get.bind fun cursor hwithin => ?_
    split
    · exact reads_refuseEnd _
    · next close rest hclose =>
      have hbody : Within spans (cursor.rest.takeWhile (·.kind ≠ .rightBrace)) :=
        fun token htoken => hwithin token ((List.takeWhile_sublist _).subset htoken)
      have hrest : Within spans rest := by
        intro token htoken
        refine hwithin token ((List.dropWhile_sublist (·.kind ≠ .rightBrace)).subset ?_)
        rw [hclose]
        exact List.mem_cons_of_mem _ htoken
      refine (reads_lift fun program h => sourced_of_body hresolve hbody h).bind fun program h => ?_
      refine (reads_set hrest).bind fun _ _ => reads_pure ⟨?_, nofun, ?_⟩
      · exact List.cons_subset.mpr
          ⟨hkeyword, List.cons_subset.mpr ⟨hname, List.nil_subset spans⟩⟩
      · rintro _ ⟨⟩
        exact ⟨rfl, h⟩

end Program.Parser

namespace Program

theorem sourced_of_ofTokens {resolve : Resolver} (hresolve : Parser.ResolvesImports resolve)
    {file : Option SourceFile} {tokens : List Token} {program : Program}
    (h : ofTokens resolve file tokens = .ok program) :
    ∀ st ∈ program.statements, Parser.Sourced resolve (tokens.map Token.span)
      (Parser.Declares resolve (tokens.map Token.span) file) st := by
  rw [ofTokens_eq] at h
  obtain ⟨list, hall, hprogram⟩ := exists_of_bind_eq_ok h
  cases hprogram
  refine Parser.forall_mem_of_all (Parser.reads_statement hresolve
    (Parser.reads_functionStatement hresolve file)) ?_ hall
  exact fun token htoken => List.mem_map_of_mem htoken

end Program

/-! ## Statements and the files they are written in -/

theorem Loader.resolvesImports (loader : Loader) :
    Program.Parser.ResolvesImports loader.resolve := by
  intro target form hform
  rcases Loader.resolve_cases hform with ⟨module, -, rfl⟩ | ⟨file, place, program, rfl, -⟩
  · exact trivial
  · exact trivial

/-- The statement stands in the program, or in the body of a function that the program declares. -/
def Program.Holds (program : Program) (st : Statement) : Prop :=
  st ∈ program.statements ∨ ∃ outer ∈ program.statements, ∃ declaration,
    outer.form = .function declaration ∧ st ∈ declaration.body.statements

/-- The text of an imported file, or of the script in place of a file. -/
def textOf (script : String) : Option SourceFile → String
  | some file => file.source
  | none => script

/-- The span is the place of a token of the text. -/
def Span.PlaceIn (text : String) (span : Span) : Prop :=
  ∃ tokens, Token.scan text = .ok tokens ∧ ∃ token ∈ tokens, token.span = span

/-- The statement is written in an imported file, or in the script in place of a file: the file has
its text from the tree of files, and when this text is loaded, the statement is part of the
program. -/
structure Statement.WrittenIn (files : FileTree) (script : String) (home : Option SourceFile)
    (st : Statement) : Prop where
  read : ∀ file, home = some file → files.readPath file.path = .ok file.source
  loaded : ∃ (loader : Loader) (program : Program), loader.files = files ∧ loader.file = home ∧
    loader.ofSource (textOf script home) = .ok program ∧ program.Holds st

namespace Statement.WrittenIn

variable {files : FileTree} {script : String} {home : Option SourceFile} {st : Statement}

/-- What the reading of the text says about the statement. -/
theorem sourced (h : st.WrittenIn files script home) :
    ∃ (loader : Loader) (program : Program) (tokens : List Token),
      loader.files = files ∧ loader.file = home ∧
      loader.ofSource (textOf script home) = .ok program ∧
      Token.scan (textOf script home) = .ok tokens ∧
      Program.Parser.Sourced loader.resolve (tokens.map Token.span)
        (fun declaration => st ∈ program.statements ∧ declaration.file = home) st := by
  obtain ⟨loader, program, rfl, rfl, hload, hholds⟩ := h.loaded
  obtain ⟨tokens, hscan, htokens⟩ := exists_of_bind_eq_ok hload
  have hsourced := Program.sourced_of_ofTokens loader.resolvesImports htokens
  refine ⟨loader, program, tokens, rfl, rfl, hload, hscan, ?_⟩
  rcases hholds with hst | ⟨outer, houter, declaration, hform, hst⟩
  · have htop := hsourced st hst
    exact ⟨htop.places, htop.imports, fun declaration hform =>
      ⟨hst, (htop.functions declaration hform).1⟩⟩
  · have hbody := ((hsourced outer houter).functions declaration hform).2 st hst
    exact ⟨hbody.places, hbody.imports, fun declaration hform =>
      (hbody.functions declaration hform).elim⟩

theorem placeIn (h : st.WrittenIn files script home) {span : Span} (hspan : span ∈ st.spans) :
    span.PlaceIn (textOf script home) := by
  obtain ⟨_, _, tokens, -, -, -, hscan, hsourced⟩ := h.sourced
  obtain ⟨token, htoken, rfl⟩ := List.mem_map.mp (hsourced.places hspan)
  exact ⟨tokens, hscan, token, htoken, rfl⟩

/-- A function is marked with the file that it is written in, and so is its body written there. -/
theorem of_function (h : st.WrittenIn files script home) {declaration : Declaration}
    (hform : st.form = .function declaration) : declaration.file = home ∧
      ∀ inner ∈ declaration.body.statements, inner.WrittenIn files script home := by
  obtain ⟨loader, program, _, hfiles, hhome, hload, -, hsourced⟩ := h.sourced
  obtain ⟨hst, hfile⟩ := hsourced.functions declaration hform
  refine ⟨hfile, fun inner hinner => ⟨h.read, loader, program, hfiles, hhome, hload, ?_⟩⟩
  exact .inr ⟨st, hst, declaration, hform, hinner⟩

/-- What is imported from a file is written there. -/
theorem of_file (h : st.WrittenIn files script home) {file : SourceFile} {imported : Program}
    (hform : st.form = .useFile file imported) :
    ∀ inner ∈ imported.statements, inner.WrittenIn files script (some file) := by
  obtain ⟨loader, _, _, rfl, -, -, -, hsourced⟩ := h.sourced
  obtain ⟨target, hresolve⟩ := hsourced.imports file imported hform
  rw [hform] at hresolve
  rcases Loader.resolve_cases hresolve with
    ⟨module, -, hmodule⟩ | ⟨_, place, program, heq, hread, -, hload⟩
  · cases hmodule
  · cases heq
    intro inner hinner
    refine ⟨fun _ hsame => Option.some.inj hsame ▸ hread, loader.forImport file place, program,
      rfl, rfl, hload, ?_⟩
    exact .inl (List.mem_filter.mp hinner).1

end Statement.WrittenIn

/-- The statements of a program are written in the file that the loader reads. -/
theorem Loader.writtenIn_of_ofSource {loader : Loader} {source : String} {program : Program}
    (hscript : loader.file = none) (h : loader.ofSource source = .ok program) :
    ∀ st ∈ program.statements, st.WrittenIn loader.files source none :=
  fun _ hst => ⟨nofun, loader, program, rfl, hscript, h, .inl hst⟩

theorem sizeOf_lt_of_mem_statements {program : Program} {st : Statement}
    (h : st ∈ program.statements) : sizeOf st < sizeOf program := by
  obtain ⟨statements, imports⟩ := program
  have hlt := List.sizeOf_lt_of_mem h
  simp at hlt ⊢
  omega

/-- A way to say in which file statements are written. It passes on to the statements of a function
that a statement declares, and of a file that it imports. -/
structure Locates (W : Option SourceFile → Statement → Prop) : Prop where
  function : ∀ {home : Option SourceFile} {st : Statement} {declaration : Declaration}, W home st →
    st.form = .function declaration →
    declaration.file = home ∧ ∀ inner ∈ declaration.body.statements, W home inner
  file : ∀ {home : Option SourceFile} {st : Statement} {file : SourceFile} {imported : Program},
    W home st → st.form = .useFile file imported →
    ∀ inner ∈ imported.statements, W (some file) inner

theorem locates_writtenIn (files : FileTree) (script : String) :
    Locates fun home st => st.WrittenIn files script home :=
  ⟨fun h hform => h.of_function hform, fun h hform => h.of_file hform⟩

/-- All forms inside a statement are forms of statements that are written somewhere. -/
theorem Locates.exists_of_mem_forms {W : Option SourceFile → Statement → Prop} (hW : Locates W)
    {home : Option SourceFile} {st : Statement} (h : W home st) {form : Form}
    (hform : form ∈ st.form.forms) :
    ∃ (inner : Statement) (home' : Option SourceFile), inner.form = form ∧ W home' inner := by
  cases hst : st.form with
  | function declaration =>
    rw [hst, Form.forms, Declaration.forms_eq] at hform
    rcases List.mem_cons.mp hform with rfl | hform
    · exact ⟨st, home, hst, h⟩
    · obtain ⟨inner, hinner, hform⟩ := mem_formsOf.mp hform
      exact hW.exists_of_mem_forms ((hW.function h hst).2 inner hinner) hform
  | useFile file program =>
    rw [hst, Form.forms, Program.forms_eq] at hform
    rcases List.mem_cons.mp hform with rfl | hform
    · exact ⟨st, home, hst, h⟩
    · obtain ⟨inner, hinner, hform⟩ := mem_formsOf.mp hform
      exact hW.exists_of_mem_forms (hW.file h hst inner hinner) hform
  | _ =>
    rw [hst, Form.forms, List.mem_singleton] at hform
    exact ⟨st, home, hst.trans hform.symm, h⟩
termination_by sizeOf st
decreasing_by
  · have hlt := sizeOf_lt_of_mem_statements hinner
    obtain ⟨form, span, scope, exported⟩ := st
    cases declaration
    cases hst
    simp at hlt ⊢
    omega
  · have hlt := sizeOf_lt_of_mem_statements hinner
    obtain ⟨form, span, scope, exported⟩ := st
    cases hst
    simp
    omega

end Scripting
