import Scripting.Proofs.Depth
import Scripting.Proofs.Provenance

/-!
# Which file an error names

An error starts out at a statement that fails though nothing inside it does (`Moment.IsOrigin`), and
it points at a place of that statement. The place belongs to the file that the statement is written
in, which is the innermost one of the files of the code that is running (`Moment.Via.located`).
But functions of the script do not claim the errors that arise in them, since there is no file to
claim them for. So the error is claimed for the innermost *imported* file, and if the statement is
written in the script, then this is a file that the statement has nothing to do with.
-/

namespace Scripting

open State

/-! ## The file that claims an error -/

/-- The innermost imported file. -/
def claimant (files : List (Option SourceFile)) : Option SourceFile := files.findSome? id

/-- An error that belongs to a file keeps to it. -/
theorem Error.foldl_claimedBy_of_file {e : Error} {path : String} (h : e.file = some path)
    (files : List (Option SourceFile)) : files.foldl claimedBy e = e := by
  induction files with
  | nil => rfl
  | cons file files ih =>
    have hfirst : e.claimedBy file = e := by
      cases file with
      | none => rfl
      | some file =>
        show e.inFile _ _ = e
        rw [inFile, h]
    rw [List.foldl_cons, hfirst, ih]

/-- What all claims come to, with the script as the last resort. -/
theorem Error.Raw.claimed {spans : List Span} {e : Error} (h : e.Raw spans) {span : Span}
    (hspan : e.span = some span) (script : String) (files : List (Option SourceFile)) :
    ((files.foldl claimedBy e).withSource script).file = (claimant files).map SourceFile.path ∧
    ((files.foldl claimedBy e).withSource script).sourceLine =
      Text.line? (textOf script (claimant files)) span.line := by
  induction files with
  | nil =>
    rw [List.foldl_nil, withSource, h.file, h.sourceLine, hspan]
    exact ⟨rfl, rfl⟩
  | cons file files ih =>
    cases file with
    | none => exact ih
    | some file =>
      have hfile : e.inFile file.path file.source =
          { e with file := some file.path, sourceLine := Text.line? file.source span.line } := by
        rw [inFile, h.file, withSource, h.file, h.sourceLine, hspan]
        rfl
      have hclaimed : (some file :: files).foldl claimedBy e = e.inFile file.path file.source :=
        foldl_claimedBy_of_file (congrArg Error.file hfile) files
      rw [hclaimed, hfile]
      exact ⟨rfl, rfl⟩

theorem claimant_cons_eq_iff {home : Option SourceFile} {callers : List (Option SourceFile)} :
    claimant (home :: callers) = home ↔ (home = none → ∀ file ∈ callers, file = none) := by
  cases home with
  | none => simp [claimant]
  | some file => simp [claimant]

theorem map_claimant_cons_eq_iff {home : Option SourceFile} {callers : List (Option SourceFile)} :
    (claimant (home :: callers)).map SourceFile.path = home.map SourceFile.path ↔
      claimant (home :: callers) = home := by
  refine ⟨fun h => ?_, fun h => by rw [h]⟩
  cases home with
  | none => exact Option.map_eq_none_iff.mp h
  | some file => rfl

/-! ## The file that a running statement is written in -/

namespace Discipline

/-- All functions have the property. -/
def declaring (F : Declaration → Prop) : Discipline where
  Allows form := form.Standard ∧ ∀ declaration, form = .function declaration → F declaration
  Owns _ := True
  Law _ _ := True
  standard _ h := h.1
  owns_declared _ _ _ := trivial
  owns_params _ _ _ _ := trivial
  law_refl _ := trivial
  law_trans _ _ _ _ _ := trivial
  law_push _ _ _ _ := trivial
  law_addAlias _ _ _ _ := trivial

theorem lenient_declaring (F : Declaration → Prop) : (declaring F).Lenient :=
  fun _ _ _ _ => trivial

/-- The bodies of functions are written where the functions say that they are. -/
def located (W : Option SourceFile → Statement → Prop) : Discipline :=
  declaring fun declaration => ∀ st ∈ declaration.body.statements, W declaration.file st

theorem allows_located {W : Option SourceFile → Statement → Prop} (hW : Locates W)
    {statements : List Statement} {home : Option SourceFile}
    (hforms : ∀ form ∈ formsOf statements, form.Standard)
    (hlocated : ∀ st ∈ statements, W home st) :
    ∀ form ∈ formsOf statements, (located W).Allows form := by
  intro form hform
  obtain ⟨st, hst, hin⟩ := mem_formsOf.mp hform
  obtain ⟨inner, home', rfl, hinner⟩ := hW.exists_of_mem_forms (hlocated st hst) hin
  refine ⟨hforms _ hform, fun declaration hdeclares => ?_⟩
  obtain ⟨hfile, hbody⟩ := hW.function hinner hdeclares
  exact hfile ▸ hbody

/-- Functions are written in the script and in the files that it leads to. -/
def written (files : FileTree) (script : String) : Discipline :=
  located fun home st => st.WrittenIn files script home

theorem allows_written {files : FileTree} {script : String} {statements : List Statement}
    {home : Option SourceFile}
    (hforms : ∀ form ∈ formsOf statements, form.Standard)
    (hwritten : ∀ st ∈ statements, st.WrittenIn files script home) :
    ∀ form ∈ formsOf statements, (written files script).Allows form :=
  allows_located (locates_writtenIn files script) hforms hwritten

end Discipline

/-- A statement that runs is written in the innermost file of the code that is running. -/
theorem Moment.Via.located {W : Option SourceFile → Statement → Prop} (hW : Locates W)
    {levels : Nat} {scopes : List Variables} {outer files : List (Option SourceFile)}
    {statements : List Statement} {s : State} {m : Moment}
    (h : m.Via levels scopes outer statements s files) (hs : s.Sound (.located W))
    (hforms : ∀ form ∈ formsOf statements, (Discipline.located W).Allows form)
    {home : Option SourceFile} (hhome : outer.head? = some home)
    (hlocated : ∀ st ∈ statements, W home st) :
    ∃ home', files.head? = some home' ∧ W home' m.statement := by
  have hlenient : (Discipline.located W).Lenient := Discipline.lenient_declaring _
  induction h generalizing home with
  | here => exact ⟨home, hhome, hlocated _ List.mem_cons_self⟩
  | @next levels scopes _ _ first _ s _ _ hrun _ ih =>
    have hallowed : ∀ form ∈ first.form.forms, (Discipline.located W).Allows form :=
      fun form hform => hforms form (by simp [formsOf, hform])
    have hfirst := Exec.keeps_statement (sound_callWithin hlenient levels) hallowed hs
      (hlenient.mayAssign fun _ _ => trivial)
    exact ih (hfirst.of_ok hrun).sound (fun form hform => hforms form (by simp [formsOf, hform]))
      hhome fun st hst => hlocated st (List.mem_cons_of_mem _ hst)
  | @file levels scopes outer _ first _ s _ file program hform _ ih =>
    have hallowed : ∀ form ∈ first.form.forms, (Discipline.located W).Allows form :=
      fun form hin => hforms form (by simp [formsOf, hin])
    have hstandard := (hallowed _ (mem_forms_self _)).1
    rw [hform] at hstandard hallowed
    refine ih (State.Advances.sound (Exec.keeps_mergeImports hs hstandard.1))
      (fun form hin => hallowed form ?_) rfl (hW.file (hlocated first List.mem_cons_self) hform)
    rw [Form.forms, Program.forms_eq]
    exact List.mem_cons_of_mem _ hin
  | @call levels scopes outer _ first _ s _ _ i hi hentry _ ih =>
    obtain ⟨bound, hbound, rfl⟩ := Invocation.exists_bound_of_entry? hentry
    have hallowed := hforms first.form (by simp [formsOf, mem_forms_self])
    obtain ⟨hadvances, hmem⟩ := Exec.invoked_form hs hallowed
      (Exec.callsKeep_of_sound (sound_callWithin hlenient _) _) i hi
    have hfunction := hadvances.sound.functions i.function hmem _ (mem_forms_self _)
    exact ih (hadvances.sound.enter hmem hbound) (Exec.allows_body hadvances.sound hmem) rfl
      (hfunction.2 i.function rfl)

theorem Moment.Via.writtenIn {tree : FileTree} {script : String} {levels : Nat}
    {scopes : List Variables} {outer files : List (Option SourceFile)} {statements : List Statement}
    {s : State} {m : Moment} (h : m.Via levels scopes outer statements s files)
    (hs : s.Sound (.written tree script))
    (hforms : ∀ form ∈ formsOf statements, (Discipline.written tree script).Allows form)
    {home : Option SourceFile} (hhome : outer.head? = some home)
    (hwritten : ∀ st ∈ statements, st.WrittenIn tree script home) :
    ∃ home', files.head? = some home' ∧ m.statement.WrittenIn tree script home' :=
  h.located (locates_writtenIn tree script) hs hforms hhome hwritten

/-! ## Where errors start out -/

theorem Form.mem_spans_of_callSpan? {form : Form} {span : Span}
    (h : form.callSpan? = some span) : span ∈ form.spans := by
  cases form with
  | function | useModule | useFile => cases h
  | call | access =>
    cases h
    exact List.mem_cons_self
  | declare _ value | assign _ value | returns value =>
    cases h
    exact value.span_mem_spans

/-- A conduct for errors only: they point at one of the places. -/
def Conduct.raising (spans : List Span) : Conduct :=
  { Moves := fun _ _ => True, Raises := Error.Raw spans }

theorem Conduct.permits_raising (st : Statement) : (Conduct.raising st.spans).Permits st where
  refl _ := trivial
  trans _ _ _ _ _ := trivial
  settle _ _ _ _ _ _ := trivial
  raw _ h := h
  orAt _ _ hspan h := h.orAt hspan
  console _ _ := trivial
  assign _ _ _ := trivial
  scope _ _ := trivial
  imports _ _ := trivial
  cells _ _ := trivial
  push _ _ _ _ := trivial
  addAlias _ _ _ _ := trivial
  function _ _ _ _ := trivial

namespace Moment

/-- The statement fails, though nothing that runs inside it does. -/
def IsOrigin (m : Moment) : Prop := ¬ m.Succeeds ∧ ∀ inner : Moment, inner.Inside m → inner.Succeeds

variable {levels : Nat} {scopes : List Variables} {statements : List Statement} {s : State}
  {m : Moment}

theorem Inside.during {inner : Moment} (h : inner.Inside m) :
    inner.During m.levels m.suspended [m.statement] m.state := by
  rcases h with ⟨file, program, hform, h⟩ | ⟨i, hi, hcall⟩
  · exact .file hform h
  · exact hcall.during hi

/-- From a statement that fails one gets to an origin by going inside. -/
theorem During.exists_isOrigin (h : m.During levels scopes statements s) (hfails : ¬ m.Succeeds) :
    ∃ origin : Moment, origin.During levels scopes statements s ∧ origin.IsOrigin := by
  induction m using wellFounded_inside.induction with
  | _ m ih =>
    by_cases hinside : ∀ inner : Moment, inner.Inside m → inner.Succeeds
    · exact ⟨m, h, hfails, hinside⟩
    · obtain ⟨inner, hinside⟩ := not_forall.mp hinside
      obtain ⟨hinner, hinnerFails⟩ := Classical.not_imp.mp hinside
      exact ih inner hinner (h.trans hinner.during) hinnerFails

/-- A program that fails has an origin. -/
theorem exists_isOrigin_of_execute {program : Program} {e : Error}
    (h : (s.execute program).1 = .error e) :
    ∃ m : Moment, m.During callLimit [] program.statements (s.prepare program) ∧ m.IsOrigin := by
  obtain ⟨t, hrun⟩ := State.execute_error_iff.mp h
  obtain ⟨m, hm, hfails⟩ := Exec.exists_of_run_statementsOf_error [] hrun
  exact hm.exists_isOrigin (not_succeeds_of_outcome hfails)

/-- An origin fails for the reason for which the program does. -/
theorem IsOrigin.exists_outcome {program : Program} {e : Error} (h : m.IsOrigin)
    (hm : m.During callLimit [] program.statements (s.prepare program)) (hsession : Session s)
    (hprogram : program.Loaded) (hexecute : (s.execute program).1 = .error e) :
    ∃ raised, m.outcome = (.error raised, m.after) ∧ raised.cause = e.cause := by
  obtain ⟨raised, hfails⟩ := exists_error_of_not_succeeds h.1
  obtain ⟨e', hexecute', hsame, -⟩ := hm.exists_execute_error hsession hprogram hfails
  cases hexecute.symm.trans hexecute'
  exact ⟨raised, hfails, hsame.symm⟩

/-- A call that an origin makes fails only if it is refused: what runs in it does not fail. -/
theorem IsOrigin.ensures_isRefusal (h : m.IsOrigin) {i : Invocation}
    (hi : i ∈ m.statement.form.invocations (callWithin m.levels) m.state) :
    Exec.Ensures (callWithin m.levels i.function i.values i.span) i.state
      (fun e _ => e.cause.IsRefusal) fun _ _ => True :=
  Exec.ensures_callWithin (fun _ _ hcause => hcause) fun k entry hk hentry =>
    Exec.ensures_of_succeeds fun inner hinner =>
      h.2 inner (.inr ⟨i, hi, k, entry, hk, hentry, hinner⟩)

/-- An error that starts out at a statement points at a place of the statement: what runs inside the
statement does not fail, and a call that is refused stands in the statement. -/
theorem IsOrigin.raises (h : m.IsOrigin) (hready : m.Ready) :
    Exec.Follows (.raising m.statement.spans) m.state
      (Exec.statement (callWithin m.levels) m.statement) := by
  have hpermits := Conduct.permits_raising m.statement
  refine (Exec.traces_statement hpermits hready.sound.imports ?_ ?_ ?_).follows
  · intro i hi
    have hplace := Form.mem_spans_of_callSpan? (Form.callSpan?_of_mem_invocations _ i hi)
    refine Exec.ensures_callWithin (fun _ cause _ => ⟨trivial, ?_⟩) fun k entry hk hentry => ?_
    · exact Error.raw_locate cause (List.mem_cons_of_mem _ hplace)
    · exact Exec.ensures_of_succeeds fun inner hinner =>
        h.2 inner (.inr ⟨i, hi, k, entry, hk, hentry, hinner⟩)
  · intro name expr _ cell t hform _ _
    have hname : m.statement.form.bound? = some name := by rw [hform, Form.bound?]
    exact Exec.follows_moveRecords hpermits hname (fun _ _ => trivial) cell _
  · intro file program hform
    exact Exec.Ensures.decorate (Exec.ensures_of_succeeds fun inner hinner =>
      h.2 inner (.inl ⟨file, program, hform, hinner⟩))

/-- An error that leaves a run of the script is the error of any origin in the run, claimed by all code
that was running there. -/
theorem IsOrigin.exists_raised {files : List (Option SourceFile)} {e : Error} {t : State}
    (h : m.IsOrigin) (hvia : m.Via levels scopes [none] statements s files)
    (hs : s.ReadyFor statements)
    (hrun : s.run (Exec.statementsOf (callWithin levels) statements) = (.error e, t)) :
    ∃ raised span, raised.Raw m.statement.spans ∧ raised.span = some span ∧
      e = files.foldl Error.claimedBy raised := by
  obtain ⟨raised, hraised⟩ := exists_error_of_not_succeeds h.1
  obtain ⟨span, hspan⟩ := Option.ne_none_iff_exists'.mp (Exec.span_of_run_statement hraised)
  have hraw := ((h.raises (hvia.during.ready hs)).of_error hraised).2
  obtain ⟨_, _, hrun', hclaims⟩ := hvia.exists_run_error hs hraised
  cases hrun.symm.trans hrun'
  exact ⟨raised, span, hraw, hspan, hclaims⟩

end Moment

/-! ## Scripts -/

/-- The loader for a script file. Imports are looked up next to the script unless a directory is
given. -/
def Loader.ofScript (files : FileTree) (path : String) (base? : Option String) : Loader :=
  let loader := Loader.forScript { registry := Library.standard, files } path
  { loader with base := base?.getD loader.base }

theorem runFile_of_load {files : FileTree} {path source : String} {base? : Option String}
    {program : Program} (hread : files.readPath path = .ok source)
    (hload : (Loader.ofScript files path base?).ofSource source = .ok program) (console : Console)
    (order : Order) :
    (runFile files path base? console order).1 =
      (State.execute { console, scopes := { order } } program).1.mapError
        (·.withSource source) := by
  unfold runFile
  rw [hread]
  show (State.executeLoaded _ ((Loader.ofScript files path base?).ofSource source)).1.mapError _ = _
  rw [hload]
  rfl

/-- Errors name the innermost imported file of the code that is running.

A script that has been loaded and then fails does so because of a statement that fails though
nothing inside it does. The statement is written in the innermost file of the code that is running,
and the error points at a token of the statement. It names the innermost imported file, and if it
quotes a line, then from there. This is the file that the statement is written in, unless the
statement is written in the script and code of an imported file waits for it. -/
theorem errors_name_innermost_import {files : FileTree} {path source : String}
    {base? : Option String} {console : Console} {order : Order} {program : Program} {e : Error}
    (hread : files.readPath path = .ok source)
    (hload : (Loader.ofScript files path base?).ofSource source = .ok program)
    (hfails : (runFile files path base? console order).1 = .error e) :
    (∃ (home : Option SourceFile) (callers : List (Option SourceFile)) (m : Moment),
      m.Via callLimit [] [none] program.statements
        (State.prepare { console, scopes := { order } } program) (home :: callers) ∧ m.IsOrigin) ∧
    ∀ (home : Option SourceFile) (callers : List (Option SourceFile)) (m : Moment),
      m.Via callLimit [] [none] program.statements
        (State.prepare { console, scopes := { order } } program) (home :: callers) → m.IsOrigin →
      m.statement.WrittenIn files source home ∧
      ∃ span ∈ m.statement.spans, span.PlaceIn (textOf source home) ∧ e.span = some span ∧
        e.file = (claimant (home :: callers)).map SourceFile.path ∧
        e.sourceLine = Text.line? (textOf source (claimant (home :: callers))) span.line ∧
        (e.file = home.map SourceFile.path ↔ claimant (home :: callers) = home) ∧
        (claimant (home :: callers) = home ↔ (home = none → ∀ file ∈ callers, file = none)) := by
  obtain ⟨tokens, -, htokens⟩ := exists_of_bind_eq_ok hload
  have hprogram : program.Loaded := ⟨_, tokens, rfl, htokens⟩
  obtain ⟨himports, hforms⟩ := hprogram.standard
  have hsound : ∀ D : Discipline,
      State.Sound D (State.prepare { console, scopes := { order } } program) := fun D =>
    State.Advances.sound (Exec.keeps_mergeImports (State.sound_start D console _) himports)
  have hwritten := Loader.writtenIn_of_ofSource rfl hload
  have hhome : ∀ {running : List (Option SourceFile)} {m : Moment},
      m.Via callLimit [] [none] program.statements
        (State.prepare { console, scopes := { order } } program) running →
      ∃ home, running.head? = some home ∧ m.statement.WrittenIn files source home :=
    fun hvia => hvia.writtenIn (hsound _) (Discipline.allows_written hforms hwritten) rfl hwritten
  rw [runFile_of_load hread hload] at hfails
  obtain ⟨e', hexecute, rfl⟩ := exists_of_mapError_eq_error hfails
  obtain ⟨t, hrun⟩ := State.execute_error_iff.mp hexecute
  constructor
  · obtain ⟨m, hm, hmfails⟩ := Exec.exists_of_run_statementsOf_error [] hrun
    obtain ⟨origin, hduring, horigin⟩ := hm.exists_isOrigin (Moment.not_succeeds_of_outcome hmfails)
    obtain ⟨running, hvia⟩ := hduring.exists_via [none]
    obtain ⟨home, hhead, -⟩ := hhome hvia
    obtain ⟨callers, rfl⟩ := List.head?_eq_some_iff.mp hhead
    exact ⟨home, callers, origin, hvia, horigin⟩
  · intro home callers m hvia horigin
    obtain ⟨_, hhead, hm⟩ := hhome hvia
    cases hhead
    obtain ⟨raised, span, hraw, hspan, rfl⟩ := horigin.exists_raised hvia
      ((Session.start console { order }).readyFor hprogram) hrun
    obtain ⟨hfile, hline⟩ := hraw.claimed hspan source (home :: callers)
    have hplace := (Error.foldl_claimedBy_cause (home :: callers) raised).2.trans hspan
    refine ⟨hm, span, hraw.span span hspan, hm.placeIn (hraw.span span hspan),
      (Error.withSource_cause _ source).2.trans hplace, hfile, hline, ?_, claimant_cons_eq_iff⟩
    rw [hfile]
    exact map_claimant_cons_eq_iff

/-- A file whose function calls a function that it does not declare. -/
def callbackImport : String := "export function g() \x7b\n  bad()\n  return 1\n\x7d\n"

/-- A script that declares the function which the imported file calls. -/
def callbackScript : String :=
  "import \"lib.mrk\"\nfunction bad() \x7b\n  return missing\n\x7d\ng()\n"

/-- The script with the file that it imports. -/
def callbackFiles : FileTree where
  entries := [(["lib.mrk"], .text callbackImport), (["main.mrk"], .text callbackScript)]

/-- The error arises in the third line of the script. It names the imported file, and quotes the
third line of that. -/
theorem errors_name_innermost_import_callback :
    ∃ (program : Program) (e : Error) (callers : List (Option SourceFile)) (m : Moment),
      callbackFiles.readPath "main.mrk" = .ok callbackScript ∧
      (Loader.ofScript callbackFiles "main.mrk" none).ofSource callbackScript = .ok program ∧
      (runFile callbackFiles "main.mrk" none {}).1 = .error e ∧
      m.Via callLimit [] [none] program.statements (State.prepare {} program) (none :: callers) ∧
      m.IsOrigin ∧ m.statement.WrittenIn callbackFiles callbackScript none ∧
      e.span = some { start := 43, stop := 50, line := 3, column := 10 } ∧
      Text.line? callbackScript 3 = some "  return missing" ∧
      e.file = some "lib.mrk" ∧ e.sourceLine = some "  return 1" := by
  have hread : callbackFiles.readPath "main.mrk" = .ok callbackScript := by decide +kernel
  have hloads : ((Loader.ofScript callbackFiles "main.mrk" none).ofSource
      callbackScript).isOk = true := by
    decide +kernel
  obtain ⟨program, hload⟩ := exists_of_isOk hloads
  have hfacts : (runFile callbackFiles "main.mrk" none {}).1.mapError
      (fun e => (e.span, e.file, e.sourceLine)) =
        .error (some ⟨43, 50, 3, 10⟩, some "lib.mrk", some "  return 1") := by
    decide +kernel
  obtain ⟨e, hfails, hparts⟩ := exists_of_mapError_eq_error hfacts
  obtain ⟨hspan, hrest⟩ := Prod.mk.inj hparts
  obtain ⟨hfile, hline⟩ := Prod.mk.inj hrest
  obtain ⟨⟨home, callers, m, hvia, horigin⟩, hall⟩ :=
    errors_name_innermost_import hread hload hfails
  obtain ⟨hwritten, span, -, hplace, hsame, -, -, hnames, hhome⟩ := hall home callers m hvia horigin
  cases Option.some.inj (hspan.symm.trans hsame)
  cases home with
  | none =>
    exact ⟨program, e, callers, m, hread, hload, hfails, hvia, horigin, hwritten, hspan,
      by decide +kernel, hfile, hline⟩
  | some file =>
    -- the place is not one of the imported file
    have hpath : file.path = "lib.mrk" :=
      Option.some.inj ((hnames.mpr (hhome.mpr nofun)).symm.trans hfile)
    have himport : callbackFiles.readPath "lib.mrk" = .ok callbackImport := by decide +kernel
    have hsource : file.source = callbackImport := by
      have hsame := hwritten.read file rfl
      rw [hpath, himport] at hsame
      exact (Except.ok.inj hsame).symm
    have hnowhere : ((Token.scan callbackImport).toOption.getD []).all
        (fun token => decide (token.span ≠ ⟨43, 50, 3, 10⟩)) = true := by
      decide +kernel
    obtain ⟨tokens, hscan, token, htoken, hat⟩ := hplace
    rw [textOf, hsource] at hscan
    rw [hscan] at hnowhere
    exact absurd hat (of_decide_eq_true (List.all_eq_true.mp hnowhere token htoken))

end Scripting
