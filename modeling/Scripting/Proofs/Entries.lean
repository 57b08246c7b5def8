import Scripting.Proofs.Attribution
import Scripting.Proofs.Pointing
import Scripting.Shell.Entry

/-!
# Errors in a session of entries

Entries are run one after another on one state, and each is read from a text of its own. Places are
counted within the text of one entry, and they do not say of which. What an entry leaves behind, as
far as it is code, are the functions that it declares (`Shell.Entered.sound`). So a statement that
runs is written in the entry that is being run, or it stands in the body of a function that an earlier
one has declared (`Statement.Runnable`). An error that names no file quotes a line of the entry that is
being run, whichever of the two it arises in.
-/

namespace Scripting

open State

/-! ## Code of earlier entries -/

/-- The loader for an entry. Imports are looked up where the session was started. -/
def Loader.ofEntry (files : FileTree) : Loader := { registry := Library.standard, files }

/-- The function is declared in the text, or in a file that its imports lead to. -/
def Declaration.WrittenIn (files : FileTree) (text : String) (declaration : Declaration) : Prop :=
  ∃ st : Statement, st.WrittenIn files text declaration.file ∧ st.form = .function declaration

/-- There are no functions in the body of a function. -/
theorem Statement.WrittenIn.form_ne_function {files : FileTree} {text : String}
    {home : Option SourceFile} {st inner : Statement} {function declaration : Declaration}
    (h : st.WrittenIn files text home) (hform : st.form = .function function)
    (hinner : inner ∈ function.body.statements) : inner.form ≠ .function declaration := by
  intro hdeclares
  obtain ⟨loader, program, tokens, -, -, hload, hscan, hsourced⟩ := h.sourced
  obtain ⟨hst, -⟩ := hsourced.functions function hform
  obtain ⟨tokens, -, htokens⟩ := exists_of_bind_eq_ok hload
  have hbody := (Program.sourced_of_ofTokens loader.resolvesImports htokens st hst).functions
    function hform
  exact (hbody.2 inner hinner).functions declaration hdeclares

/-- The statement is written in the text, which declares the function, or in an imported file. If it
is written in the text itself, then in the body of the function. -/
structure Statement.InFunction (files : FileTree) (text : String) (function : Declaration)
    (home : Option SourceFile) (st : Statement) : Prop where
  declared : function.WrittenIn files text
  written : st.WrittenIn files text home
  body : home = none → function.file = none ∧ st ∈ function.body.statements

theorem locates_inFunction (files : FileTree) (text : String) (function : Declaration) :
    Locates fun home st => st.InFunction files text function home where
  function {home st declaration} h hform := by
    obtain ⟨hfile, hinner⟩ := h.written.of_function hform
    refine ⟨hfile, fun inner hmem => ⟨h.declared, hinner inner hmem, fun hhome => ?_⟩⟩
    obtain ⟨outer, houter, hfunction⟩ := h.declared
    exact absurd hform (houter.form_ne_function hfunction (h.body hhome).2)
  file h hform inner hmem := ⟨h.declared, h.written.of_file hform inner hmem, nofun⟩

/-- The statement is written in the text that is being run or in a file that its imports lead to, or
it belongs to one of the functions, which an earlier text has declared. -/
inductive Statement.Runnable (files : FileTree) (source : String) (earlier : List String)
    (functions : List Declaration) (home : Option SourceFile) (st : Statement) : Prop
  | here (h : st.WrittenIn files source home)
  | function {text : String} (htext : text ∈ earlier) {function : Declaration}
      (hfunction : function ∈ functions) (h : st.InFunction files text function home)

theorem locates_runnable (files : FileTree) (source : String) (earlier : List String)
    (functions : List Declaration) :
    Locates fun home st => st.Runnable files source earlier functions home where
  function {home st declaration} h hform := by
    cases h with
    | here h =>
      obtain ⟨hfile, hinner⟩ := h.of_function hform
      exact ⟨hfile, fun inner hmem => .here (hinner inner hmem)⟩
    | function htext hfunction h =>
      obtain ⟨hfile, hinner⟩ := (locates_inFunction _ _ _).function h hform
      exact ⟨hfile, fun inner hmem => .function htext hfunction (hinner inner hmem)⟩
  file h hform inner hmem := by
    cases h with
    | here h => exact .here (h.of_file hform inner hmem)
    | function htext hfunction h =>
      exact .function htext hfunction ((locates_inFunction _ _ _).file h hform inner hmem)

namespace Shell

/-! ## Sessions of entries -/

/-- The states between two entries of a session, with the entries that have been run since the state
was last empty. In between, the console is used. -/
inductive Entered (files : FileTree) : List String → State → Prop
  | start (console : Console) (scopes : Scopes := {}) : Entered files [] { console, scopes }
  | console {entries : List String} {s : State} (h : Entered files entries s) (console : Console) :
      Entered files entries { s with console }
  | enter {entries : List String} {s : State} (h : Entered files entries s) (source : String) :
      Entered files (source :: entries) (s.executeLoaded ((Loader.ofEntry files).ofSource source)).2

variable {files : FileTree} {entries : List String} {s : State} {source : String}

/-- All functions are declared in one of the entries. -/
def declaredIn (files : FileTree) (entries : List String) : Discipline :=
  .declaring fun declaration => ∃ text ∈ entries, declaration.WrittenIn files text

theorem allows_declaredIn {program : Program} (htext : source ∈ entries)
    (hforms : ∀ form ∈ formsOf program.statements, form.Standard)
    (hwritten : ∀ st ∈ program.statements, st.WrittenIn files source none) :
    ∀ form ∈ formsOf program.statements, (declaredIn files entries).Allows form := by
  intro form hform
  obtain ⟨st, hst, hin⟩ := mem_formsOf.mp hform
  obtain ⟨inner, home, rfl, hinner⟩ :=
    (locates_writtenIn files source).exists_of_mem_forms (hwritten st hst) hin
  refine ⟨hforms _ hform, fun declaration hdeclares => ⟨source, htext, inner, ?_, hdeclares⟩⟩
  rwa [(hinner.of_function hdeclares).1]

theorem loaded_of_ofSource {program : Program}
    (h : (Loader.ofEntry files).ofSource source = .ok program) : program.Loaded := by
  obtain ⟨tokens, -, htokens⟩ := exists_of_bind_eq_ok h
  exact ⟨_, tokens, rfl, htokens⟩

/-- Functions outlive the entry that declares them, and all functions come from an entry. -/
theorem Entered.sound (h : Entered files entries s) : s.Sound (declaredIn files entries) := by
  induction h with
  | start console scopes => exact State.sound_start _ console scopes
  | console _ _ ih => exact ⟨ih.log, ih.vars, ih.functions, ih.imports⟩
  | @enter entries s _ source ih =>
    have hlonger : s.Sound (declaredIn files (source :: entries)) := by
      refine ⟨ih.log, ih.vars, fun function hfunction form hform => ?_, ih.imports⟩
      obtain ⟨hstandard, hdeclared⟩ := ih.functions function hfunction form hform
      refine ⟨hstandard, fun declaration hdeclares => ?_⟩
      obtain ⟨text, htext, hwritten⟩ := hdeclared declaration hdeclares
      exact ⟨text, List.mem_cons_of_mem _ htext, hwritten⟩
    cases hload : (Loader.ofEntry files).ofSource source with
    | error e => exact hlonger
    | ok program =>
      obtain ⟨himports, hforms⟩ := (loaded_of_ofSource hload).standard
      have hallowed := allows_declaredIn (List.mem_cons_self (a := source) (l := entries)) hforms
        (Loader.writtenIn_of_ofSource rfl hload)
      exact (hlonger.advances_execute_of_lenient (Discipline.lenient_declaring _)
        (fun _ => trivial) himports hallowed).sound

theorem Entered.settled (h : Entered files entries s) : s.Settled := by
  induction h with
  | start console scopes => exact (Session.start console scopes).settled
  | console _ _ ih => exact ih
  | @enter entries s h source ih =>
    cases hload : (Loader.ofEntry files).ofSource source with
    | error e => exact ih
    | ok program => exact ih.execute h.sound.ofLoaded (loaded_of_ofSource hload)

/-- While an entry is run, all code is that of the entry or of a function from an earlier one. -/
theorem Entered.sound_located (h : Entered files entries s) (source : String) :
    s.Sound (.located fun home st => st.Runnable files source entries s.functions home) := by
  have hs := h.sound
  refine ⟨hs.log, hs.vars, fun function hfunction form hform => ?_, hs.imports⟩
  refine ⟨(hs.functions function hfunction form hform).1, ?_⟩
  rintro declaration rfl inner hinner
  obtain ⟨text, htext, hdeclared⟩ :=
    (hs.functions function hfunction _ (mem_forms_self _)).2 function rfl
  obtain ⟨outer, houter, hform'⟩ := id hdeclared
  have hbody : ∀ st ∈ function.body.statements, st.InFunction files text function function.file :=
    fun st hst => ⟨hdeclared, (houter.of_function hform').2 st hst, fun hhome => ⟨hhome, hst⟩⟩
  have hlocates := locates_inFunction files text function
  rw [Form.forms, Declaration.forms_eq] at hform
  rcases List.mem_cons.mp hform with heq | hdeeper
  · cases heq
    exact .function htext hfunction (hbody inner hinner)
  · obtain ⟨st, hst, hin⟩ := mem_formsOf.mp hdeeper
    obtain ⟨found, home, hfound, hat⟩ := hlocates.exists_of_mem_forms (hbody st hst) hin
    obtain ⟨hfile, hall⟩ := hlocates.function hat hfound
    exact .function htext hfunction (hfile ▸ hall inner hinner)

/-! ## Lines of a session -/

theorem Interactive.state_enter (files : FileTree) (session : Interactive) (source : String) :
    (session.enter files source).state =
      (session.state.executeLoaded ((Loader.ofEntry files).ofSource source)).2 := by
  rw [enter, Loader.ofEntry]
  generalize session.state.executeLoaded _ = outcome
  obtain ⟨result, after⟩ := outcome
  cases result <;> rfl

theorem Interactive.reports_enter {session : Interactive} {e : Error}
    (hfails : (session.state.executeLoaded ((Loader.ofEntry files).ofSource source)).1 = .error e) :
    (session.enter files source).reports = session.reports.push (e.withSource source).text := by
  rw [Loader.ofEntry] at hfails
  rw [enter]
  generalize session.state.executeLoaded _ = outcome at hfails ⊢
  obtain ⟨result, after⟩ := outcome
  cases hfails
  rfl

/-- A line leads from a state between entries to another one. -/
theorem Entered.exists_accept {session : Interactive} (h : Entered files entries session.state)
    (line : String) :
    ∃ entries', Entered files entries' (session.accept files line).1.state := by
  unfold Interactive.accept
  dsimp only
  split
  · exact ⟨entries, h⟩
  · exact ⟨entries, h.console _⟩
  · exact ⟨entries, h.console _⟩
  · exact ⟨[], (Entered.start session.state.console _).console _⟩
  · dsimp only [Interactive.gather]
    split
    · exact ⟨entries, h⟩
    · rw [Interactive.state_enter]
      exact ⟨_, h.enter _⟩

theorem Entered.close {session : Interactive} (h : Entered files entries session.state) :
    Entered files entries session.close.state := by
  unfold Interactive.close
  dsimp only
  split
  · exact h.console _
  · exact h.console _

theorem Entered.exists_finish {session : Interactive} (h : Entered files entries session.state)
    (count : Nat) : ∃ entries', Entered files entries' (session.finish files count).state := by
  induction count generalizing session entries with
  | zero => exact ⟨entries, h.close⟩
  | succ count ih =>
    unfold Interactive.finish
    split
    · exact ⟨entries, h.close⟩
    · next line rest _ =>
      let reading : Interactive := { session with
        state := { session.state with console := { session.state.console with input := rest } } }
      have hread : Entered files entries reading.state := h.console _
      obtain ⟨entries', hafter⟩ := hread.exists_accept line
      dsimp only
      split
      · exact ⟨entries', hafter⟩
      · split
        · exact ih hafter
        · exact ⟨entries', hafter⟩

/-- An interactive session is one of entries, whatever lines it reads. -/
theorem exists_entered_interact (files : FileTree) (console : Console) (order : Order) :
    ∃ entries, Entered files entries (interact files console order).state :=
  let start : Interactive := { state := { console, scopes := { order } } }
  ((Entered.start console { order }).console _ :
    Entered files [] (start.say greeting).state).exists_finish _

/-! ## Lines that are quoted -/

/-- An error keeps to the file that it names. -/
theorem file_withSource (e : Error) (text : String) : (e.withSource text).file = e.file :=
  (e.withSource_eq text).2.2

/-- The errors of an entry that cannot be loaded. -/
theorem quoted_of_load_error {e : Error} (hload : (Loader.ofEntry files).ofSource source = .error e)
    (hfile : e.file = none) :
    ∃ span c, e.span = some span ∧
      (e.withSource source).sourceLine = Text.line? source span.line ∧
      span.PointsAt source c ∧ ¬ Token.isLayout c := by
  have hrefusal : Reading.Refusal ⟨Loader.ofEntry files, source⟩ e := Reading.refusal_of_load hload
  cases hrefusal with
  | @here cause span c h => exact ⟨span, c, rfl, rfl, h.pointsAt, h.notLayout⟩
  | file => cases hfile

/-- The errors of an entry that is run, when no imported code is running. -/
theorem Entered.quoted_of_origin {program : Program} {e : Error} {m : Moment}
    (h : Entered files entries s) (hload : (Loader.ofEntry files).ofSource source = .ok program)
    (hfails : (s.execute program).1 = .error e) (hfile : e.file = none)
    (hm : m.During callLimit [] program.statements (s.prepare program)) (horigin : m.IsOrigin) :
    ∃ span ∈ m.statement.spans, e.span = some span ∧
      (e.withSource source).sourceLine = Text.line? source span.line ∧
      m.statement.Runnable files source entries s.functions none := by
  have hprogram := loaded_of_ofSource hload
  obtain ⟨himports, hforms⟩ := hprogram.standard
  have hwritten := Loader.writtenIn_of_ofSource rfl hload
  have hlocates := locates_runnable files source entries s.functions
  have hhere : ∀ st ∈ program.statements,
      st.Runnable files source entries s.functions none := fun st hst => .here (hwritten st hst)
  obtain ⟨running, hvia⟩ := hm.exists_via [none]
  obtain ⟨home, hhead, hrunnable⟩ := hvia.located hlocates
    (State.Advances.sound (Exec.keeps_mergeImports (h.sound_located source) himports))
    (Discipline.allows_located hlocates hforms hhere) rfl hhere
  obtain ⟨callers, rfl⟩ := List.head?_eq_some_iff.mp hhead
  obtain ⟨t, hrun⟩ := State.execute_error_iff.mp hfails
  obtain ⟨raised, span, hraw, hspan, rfl⟩ :=
    horigin.exists_raised hvia (h.settled.readyFor h.sound.ofLoaded hprogram) hrun
  obtain ⟨hclaimed, hline⟩ := hraw.claimed hspan source (home :: callers)
  rw [file_withSource, hfile] at hclaimed
  have hnone := Option.map_eq_none_iff.mp hclaimed.symm
  have hhome : home = none := by
    cases home with
    | none => rfl
    | some file => cases hnone
  rw [hnone] at hline
  refine ⟨span, hraw.span span hspan, ?_, hline, hhome ▸ hrunnable⟩
  exact (Error.foldl_claimedBy_cause (home :: callers) raised).2.trans hspan

/-- An error in a session quotes the entry that is being run.

When an entry fails with an error that names no file, the error has a place, and the session reports
it with that line of the entry. If the entry cannot be loaded, then the place is that of a character
of the entry. Otherwise some statement fails though nothing inside it does, and the place is that of a
token of the statement. Either the statement is written in the entry, and so the line is the right
one. Or else it stands in the body of a function that an earlier entry has declared. Then it is that
entry in which the place is found, but the line is taken from the one that is being run. -/
theorem error_quotes_latest_entry {session : Interactive} {e : Error}
    (hentered : Entered files entries session.state)
    (hfails : (session.state.executeLoaded ((Loader.ofEntry files).ofSource source)).1 = .error e)
    (hfile : (e.withSource source).file = none) :
    (session.enter files source).reports = session.reports.push (e.withSource source).text ∧
    ∃ span, e.span = some span ∧
      (e.withSource source).sourceLine = Text.line? source span.line ∧
      ((Loader.ofEntry files).ofSource source = .error e ∧
          (∃ c, span.PointsAt source c ∧ ¬ Token.isLayout c) ∨
        ∃ program, (Loader.ofEntry files).ofSource source = .ok program ∧
          (∃ m : Moment, m.During callLimit [] program.statements (session.state.prepare program) ∧
            m.IsOrigin) ∧
          ∀ m : Moment, m.During callLimit [] program.statements (session.state.prepare program) →
            m.IsOrigin → span ∈ m.statement.spans ∧
            (m.statement.WrittenIn files source none ∧ span.PlaceIn source ∨
              ∃ text ∈ entries, ∃ function ∈ session.state.functions,
                function.WrittenIn files text ∧ function.file = none ∧
                m.statement ∈ function.body.statements ∧
                m.statement.WrittenIn files text none ∧ span.PlaceIn text)) := by
  refine ⟨Interactive.reports_enter hfails, ?_⟩
  rw [file_withSource] at hfile
  cases hload : (Loader.ofEntry files).ofSource source with
  | error raised =>
    rw [hload] at hfails
    cases hfails
    obtain ⟨span, c, hspan, hline, hpoints, hc⟩ := quoted_of_load_error hload hfile
    exact ⟨span, hspan, hline, .inl ⟨rfl, c, hpoints, hc⟩⟩
  | ok program =>
    rw [hload] at hfails
    have hall := fun m => hentered.quoted_of_origin (m := m) hload hfails hfile
    obtain ⟨origin, hduring, horigin⟩ := Moment.exists_isOrigin_of_execute hfails
    obtain ⟨span, -, hspan, hline, -⟩ := hall origin hduring horigin
    refine ⟨span, hspan, hline, .inr ⟨program, rfl, ⟨origin, hduring, horigin⟩, ?_⟩⟩
    intro m hm hmorigin
    obtain ⟨span', hmem, hspan', -, hrunnable⟩ := hall m hm hmorigin
    cases Option.some.inj (hspan.symm.trans hspan')
    refine ⟨hmem, ?_⟩
    cases hrunnable with
    | here h => exact .inl ⟨h, h.placeIn hmem⟩
    | @function text htext function hfunction h =>
      obtain ⟨hnone, hbody⟩ := h.body rfl
      exact .inr ⟨text, htext, function, hfunction, h.declared, hnone, hbody, h.written,
        h.written.placeIn hmem⟩

/-- An entry that declares a function which cannot be run. -/
def faultyEntry : String := "function f() \x7b return nope \x7d\n"

/-- An entry that calls the function. -/
def callingEntry : String := "f()\n"

/-- A session that has run the entry with the function. -/
def faultySession : Interactive := ({ state := {} } : Interactive).enter {} faultyEntry

/-- What there is to know about the error of the call. -/
theorem faultySession_fails :
    ∃ e, (faultySession.state.executeLoaded ((Loader.ofEntry {}).ofSource callingEntry)).1 =
        .error e ∧
      e.span = some { start := 22, stop := 26, line := 1, column := 23 } ∧
      (e.withSource callingEntry).file = none ∧
      (e.withSource callingEntry).sourceLine = some "f()" := by
  have hfacts : (faultySession.state.executeLoaded
      ((Loader.ofEntry {}).ofSource callingEntry)).1.mapError
        (fun e => (e.span, (e.withSource callingEntry).file,
          (e.withSource callingEntry).sourceLine)) =
            .error (some ⟨22, 26, 1, 23⟩, none, some "f()") := by
    decide +kernel
  obtain ⟨e, hfails, hparts⟩ := exists_of_mapError_eq_error hfacts
  obtain ⟨hspan, hrest⟩ := Prod.mk.inj hparts
  obtain ⟨hfile, hline⟩ := Prod.mk.inj hrest
  exact ⟨e, hfails, hspan, hfile, hline⟩

/-- The place is not one of the entry that makes the call. -/
theorem not_placeIn_callingEntry :
    ¬ Span.PlaceIn callingEntry { start := 22, stop := 26, line := 1, column := 23 } := by
  have hnowhere : ((Token.scan callingEntry).toOption.getD []).all
      (fun token => decide (token.span ≠ ⟨22, 26, 1, 23⟩)) = true := by
    decide +kernel
  rintro ⟨tokens, hscan, token, htoken, hat⟩
  rw [hscan] at hnowhere
  exact absurd hat (of_decide_eq_true (List.all_eq_true.mp hnowhere token htoken))

/-- The statement that fails is that of the function, and the line that is quoted is that of the
call. -/
theorem error_quotes_latest_entry_faulty :
    ∃ (e : Error) (program : Program) (m : Moment) (function : Declaration),
      Entered {} [faultyEntry] faultySession.state ∧
      (faultySession.state.executeLoaded ((Loader.ofEntry {}).ofSource callingEntry)).1 =
        .error e ∧
      (e.withSource callingEntry).file = none ∧
      (Loader.ofEntry {}).ofSource callingEntry = .ok program ∧
      m.During callLimit [] program.statements (faultySession.state.prepare program) ∧
      m.IsOrigin ∧ function ∈ faultySession.state.functions ∧
      m.statement ∈ function.body.statements ∧ m.statement.WrittenIn {} faultyEntry none ∧
      e.span = some { start := 22, stop := 26, line := 1, column := 23 } ∧
      (e.withSource callingEntry).sourceLine = some "f()" ∧
      (faultySession.enter {} callingEntry).reports = #[(e.withSource callingEntry).text] := by
  have hentered : Entered {} [faultyEntry] faultySession.state := by
    rw [faultySession, Interactive.state_enter]
    exact (Entered.start {}).enter faultyEntry
  obtain ⟨e, hfails, hspan, hfile, hline⟩ := faultySession_fails
  obtain ⟨hreports, span, hspan', -, hcases⟩ := error_quotes_latest_entry hentered hfails hfile
  cases Option.some.inj (hspan.symm.trans hspan')
  have hloads : ((Loader.ofEntry {}).ofSource callingEntry).isOk = true := by decide +kernel
  obtain ⟨loaded, hload⟩ := exists_of_isOk hloads
  have hnone : faultySession.reports = #[] := by decide +kernel
  rw [hnone] at hreports
  rcases hcases with ⟨hrefused, -⟩ | ⟨program, hprogram, ⟨m, hm, horigin⟩, hall⟩
  · cases hload.symm.trans hrefused
  · obtain ⟨-, ⟨-, hplace⟩ | ⟨text, htext, function, hfunction, -, -, hbody, hwritten, -⟩⟩ :=
      hall m hm horigin
    · exact absurd hplace not_placeIn_callingEntry
    · cases List.mem_singleton.mp htext
      exact ⟨e, program, m, function, hentered, hfails, hfile, hprogram, hm, horigin, hfunction,
        hbody, hwritten, hspan, hline, hreports⟩

/-- The place of the error is that of a token in the first entry and of none in the second one. But
the line that is quoted is not the one of the first entry. -/
theorem error_quotes_other_entry :
    ∃ (e : Error) (span : Span) (line : String),
      (faultySession.state.executeLoaded ((Loader.ofEntry {}).ofSource callingEntry)).1 =
        .error e ∧
      (e.withSource callingEntry).file = none ∧ e.span = some span ∧
      (e.withSource callingEntry).sourceLine = some line ∧ span.PlaceIn faultyEntry ∧
      ¬ span.PlaceIn callingEntry ∧ Text.line? faultyEntry span.line ≠ some line := by
  obtain ⟨e, hfails, hspan, hfile, hline⟩ := faultySession_fails
  have hfound : (Token.scan faultyEntry).toOption.any (fun tokens =>
      tokens.any fun token => decide (token.span = ⟨22, 26, 1, 23⟩)) = true := by
    decide +kernel
  obtain ⟨tokens, hscan, hany⟩ := (Option.any_eq_true _ _).mp hfound
  obtain ⟨token, htoken, hat⟩ := List.any_eq_true.mp hany
  exact ⟨e, _, _, hfails, hfile, hspan, hline,
    ⟨tokens, eq_ok_of_toOption hscan, token, htoken, of_decide_eq_true hat⟩,
    not_placeIn_callingEntry, by decide +kernel⟩

end Shell

end Scripting
