import Scripting.Proofs.Loading
import Scripting.Proofs.Moments

/-!
# What the import of a file brings in

An imported file adds functions and modules to the state of the program that imports it, and nothing
else. The functions are those that it exports, in the order of the text, where an import that is
exported stands for all that the other file exports in turn. The modules are its own, whether it
exports them or not, and those of the files that it exports (`Loader.offers`). They are taken up one
by one, up to the first function whose name is taken (`State.bring`).

The closure is computed from the texts, each of which is read on its own. A statement of one of
these texts runs only if it is exported there, and if the file is exported by all files on the way
to it (`Loader.Exported`).
-/

namespace Scripting

/-! ## Import tables -/

namespace ImportTable

theorem merge_ofStatements (table : ImportTable) (statements : List Statement) :
    table.merge (Program.ofStatements statements).imports =
      (statements.filterMap (·.form.module?)).foldl insert table :=
  merge_foldl_insert table {} _

end ImportTable

/-! ## Taking up what a file offers -/

/-- Something that an imported file adds to the state. -/
inductive Offer where
  | module (module : Module)
  | function (declaration : Declaration)

namespace Offer

/-- The module that is offered. -/
def module? : Offer → Option Module
  | module m => some m
  | function _ => none

/-- The function that is offered. -/
def function? : Offer → Option Declaration
  | module _ => none
  | function d => some d

end Offer

/-- The modules among some offers. -/
def modulesOf (offers : List Offer) : List Module := offers.filterMap Offer.module?

/-- The functions among some offers. -/
def functionsOf (offers : List Offer) : List Declaration := offers.filterMap Offer.function?

theorem mem_functionsOf {offers : List Offer} {d : Declaration} :
    d ∈ functionsOf offers ↔ .function d ∈ offers := by
  refine List.mem_filterMap.trans ⟨?_, fun h => ⟨_, h, rfl⟩⟩
  rintro ⟨offer, hoffer, hd⟩
  cases offer with
  | module => cases hd
  | function => exact Option.some.inj hd ▸ hoffer

namespace State

variable {s t : State} {offers more : List Offer}

/-- Why a function cannot be declared whose name is taken. -/
def clash (declaration : Declaration) : Error :=
  declaration.claimError (.locate (.functionAlreadyDeclared declaration.name) declaration.span)

theorem clash_span (declaration : Declaration) : (clash declaration).span ≠ none := by
  unfold clash Declaration.claimError
  cases declaration.file <;> exact Option.some_ne_none _

theorem clash_of_file {declaration : Declaration} {file : SourceFile}
    (h : declaration.file = some file) : clash declaration =
      (Error.locate (.functionAlreadyDeclared declaration.name) declaration.span).inFile
        file.path file.source := by
  rw [clash, Declaration.claimError, h]

theorem inFile_clash {declaration : Declaration} (h : declaration.file ≠ none)
    (path source : String) : (clash declaration).inFile path source = clash declaration := by
  obtain ⟨file, hfile⟩ := Option.ne_none_iff_exists'.mp h
  refine Error.inFile_of_file ?_ path source
  rw [clash_of_file hfile, Error.file_inFile]
  exact Option.some_ne_none _

/-- Take up some offers in turn, up to the first function whose name is taken. -/
def bring (s : State) : List Offer → Except Error Flow × State
  | [] => (.ok .goOn, s)
  | .module m :: rest => bring { s with imports := s.imports.insert m } rest
  | .function d :: rest =>
    if (s.function? d.name).isSome then (.error (clash d), s)
    else bring { s with functions := d :: s.functions } rest

/-- The state with some offers taken up: modules come behind those that are in view already, and
each function comes before those that are declared already. -/
def withOffers (s : State) (offers : List Offer) : State :=
  { s with
    imports := (modulesOf offers).foldl ImportTable.insert s.imports
    functions := (functionsOf offers).reverse ++ s.functions }

theorem withOffers_function (s : State) (d : Declaration) (offers : List Offer) :
    { s with functions := d :: s.functions }.withOffers offers =
      s.withOffers (.function d :: offers) := by
  simp [withOffers, modulesOf, functionsOf, List.filterMap_cons, Offer.module?, Offer.function?]

/-- The names of the functions are pairwise distinct, and no function is declared under any of them.
-/
def Free (s : State) (functions : List Declaration) : Prop :=
  (functions.map Declaration.name).Nodup ∧ ∀ d ∈ functions, s.function? d.name = none

/-- A function is free after another one has been declared, if both are. -/
theorem free_cons_iff {d : Declaration} {functions : List Declaration} :
    s.Free (d :: functions) ↔ s.function? d.name = none ∧
      { s with functions := d :: s.functions }.Free functions := by
  simp only [Free, List.map_cons, List.nodup_cons, List.forall_mem_cons, function?_eq_none_iff,
    List.mem_map, not_exists, not_and]
  constructor
  · rintro ⟨⟨hd, hnodup⟩, hs, hrest⟩
    exact ⟨hs, hnodup, fun e he => ⟨fun h => hd e he h.symm, hrest e he⟩⟩
  · rintro ⟨hs, hnodup, hrest⟩
    exact ⟨⟨fun e he h => (hrest e he).1 h.symm, hnodup⟩, hs, fun e he => (hrest e he).2⟩

/-- All offers are taken up if their functions are free. Otherwise there is a first function whose
name is taken when its turn comes, and all offers before it are taken up. -/
theorem bring_cases (s : State) (offers : List Offer) :
    s.Free (functionsOf offers) ∧ s.bring offers = (.ok .goOn, s.withOffers offers) ∨
    ∃ before d after, offers = before ++ .function d :: after ∧ s.Free (functionsOf before) ∧
      (s.withOffers before).function? d.name ≠ none ∧
      s.bring offers = (.error (clash d), s.withOffers before) := by
  induction offers generalizing s with
  | nil => exact .inl ⟨⟨List.nodup_nil, nofun⟩, rfl⟩
  | cons offer rest ih =>
    cases offer with
    | module m =>
      rcases ih { s with imports := s.imports.insert m } with
        ⟨hfree, hrun⟩ | ⟨before, d, after, rfl, hfree, htaken, hrun⟩
      · exact .inl ⟨hfree, hrun⟩
      · exact .inr ⟨.module m :: before, d, after, rfl, hfree, htaken, hrun⟩
    | function d =>
      rw [bring]
      split
      · next hsome =>
        exact .inr ⟨[], d, rest, rfl, ⟨List.nodup_nil, nofun⟩,
          Option.isSome_iff_ne_none.mp hsome, rfl⟩
      · next hnone =>
        have hnone : s.function? d.name = none := by simpa using hnone
        rcases ih { s with functions := d :: s.functions } with
          ⟨hfree, hrun⟩ | ⟨before, e, after, rfl, hfree, htaken, hrun⟩
        · rw [withOffers_function] at hrun
          exact .inl ⟨free_cons_iff.mpr ⟨hnone, hfree⟩, hrun⟩
        · rw [withOffers_function] at htaken hrun
          exact .inr ⟨.function d :: before, e, after, rfl, free_cons_iff.mpr ⟨hnone, hfree⟩,
            htaken, hrun⟩

/-- The name of a function that is free is not taken when its turn comes. -/
theorem Free.function?_eq_none {before after : List Offer} {d : Declaration}
    (h : s.Free (functionsOf (before ++ .function d :: after))) :
    (s.withOffers before).function? d.name = none := by
  have hsplit : functionsOf (before ++ .function d :: after) =
      functionsOf before ++ d :: functionsOf after := List.filterMap_append
  rw [hsplit] at h
  obtain ⟨hnodup, hnone⟩ := h
  rw [List.map_append, List.map_cons, List.nodup_append] at hnodup
  rw [function?_eq_none_iff]
  intro e he
  rcases List.mem_append.mp he with he | he
  · exact hnodup.2.2 _ (List.mem_map_of_mem (List.mem_reverse.mp he)) _ List.mem_cons_self
  · exact function?_eq_none_iff.mp (hnone d (by simp)) e he

theorem eq_goOn_of_bring {flow : Flow} (h : s.bring offers = (.ok flow, t)) :
    flow = .goOn ∧ t = s.withOffers offers := by
  rcases s.bring_cases offers with ⟨-, hrun⟩ | ⟨_, _, _, -, -, -, hrun⟩
  · cases hrun.symm.trans h
    exact ⟨rfl, rfl⟩
  · cases hrun.symm.trans h

/-- Whether all offers are taken up or not, nothing changes but the functions and the modules, and
the new functions are among the offers. -/
theorem bring_frame (s : State) (offers : List Offer) : ∃ functions imports,
    (s.bring offers).2 = { s with functions, imports } ∧
      ∀ d ∈ functions, d ∈ s.functions ∨ .function d ∈ offers := by
  have hframe : ∃ taken, taken <+: offers ∧ (s.bring offers).2 = s.withOffers taken := by
    rcases s.bring_cases offers with ⟨-, hrun⟩ | ⟨before, d, after, rfl, -, -, hrun⟩
    · exact ⟨offers, List.prefix_refl _, congrArg Prod.snd hrun⟩
    · exact ⟨before, List.prefix_append _ _, congrArg Prod.snd hrun⟩
  obtain ⟨taken, htaken, hstate⟩ := hframe
  refine ⟨_, _, hstate, fun d hd => ?_⟩
  rcases List.mem_append.mp hd with hd | hd
  · exact .inr (htaken.subset (mem_functionsOf.mp (List.mem_reverse.mp hd)))
  · exact .inl hd

theorem exists_clash_of_bring {e : Error} (h : s.bring offers = (.error e, t)) :
    ∃ d, .function d ∈ offers ∧ e = clash d := by
  rcases s.bring_cases offers with ⟨-, hrun⟩ | ⟨before, d, after, rfl, -, -, hrun⟩
  · cases hrun.symm.trans h
  · cases hrun.symm.trans h
    exact ⟨d, by simp, rfl⟩

theorem bring_append_of_ok (h : s.bring offers = (.ok .goOn, t)) :
    s.bring (offers ++ more) = t.bring more := by
  induction offers generalizing s with
  | nil =>
    cases h
    rfl
  | cons offer rest ih =>
    cases offer with
    | module m => exact ih h
    | function d =>
      rw [List.cons_append, bring]
      rw [bring] at h
      split at h
      · cases h
      · next hnone =>
        rw [if_neg hnone]
        exact ih h

theorem bring_append_of_error {e : Error} (h : s.bring offers = (.error e, t)) :
    s.bring (offers ++ more) = (.error e, t) := by
  induction offers generalizing s with
  | nil => cases h
  | cons offer rest ih =>
    cases offer with
    | module m => exact ih h
    | function d =>
      rw [List.cons_append, bring]
      rw [bring] at h
      split at h
      · next hsome =>
        rw [if_pos hsome]
        exact h
      · next hnone =>
        rw [if_neg hnone]
        exact ih h

theorem bring_modules (s : State) (modules : List Module) (more : List Offer) :
    s.bring (modules.map .module ++ more) =
      { s with imports := modules.foldl ImportTable.insert s.imports }.bring more := by
  induction modules generalizing s with
  | nil => rfl
  | cons module modules ih => exact ih { s with imports := s.imports.insert module }

end State

/-! ## Exported statements -/

namespace Program.Grammar

theorem Sequence.exists_of_mem {One : List Token → Statement → Prop} {tokens : List Token}
    {statements : List Statement} (h : Sequence One tokens statements) {st : Statement}
    (hst : st ∈ statements) : ∃ tokens, One tokens st := by
  induction h with
  | nil => cases hst
  | cons hfirst _ ih =>
    rcases List.mem_cons.mp hst with rfl | hst
    · exact ⟨_, hfirst⟩
    · exact ih hst

end Program.Grammar

/-- The form of a statement that is exported by a text of the loader: a function of this text, or
something that can be imported. -/
inductive Form.Exportable (loader : Loader) : Form → Prop
  | function {declaration : Declaration} (hfile : declaration.file = loader.file) :
      Exportable loader (.function declaration)
  | useModule {module : Module} : Exportable loader (.useModule module)
  | useFile {target : Token} {file : SourceFile} {program : Program}
      (hresolve : loader.resolve target = .ok (.useFile file program)) :
      Exportable loader (.useFile file program)

theorem Form.Exportable.isExport {loader : Loader} {form : Form} (h : form.Exportable loader) :
    form.IsExport := by
  cases h <;> trivial

theorem Loader.exportable_of_resolve {loader : Loader} {target : Token} {form : Form}
    (h : loader.resolve target = .ok form) : form.Exportable loader := by
  have hresolved := loader.resolved_resolve target
  rw [h] at hresolved
  cases hresolved with
  | module => exact .useModule
  | file => exact .useFile h

theorem Loader.exportable_of_ofSource {loader : Loader} {source : String} {program : Program}
    (h : loader.ofSource source = .ok program) {st : Statement} (hst : st ∈ program.statements)
    (hexported : st.exported = true) : st.form.Exportable loader := by
  obtain ⟨tokens, -, htokens⟩ := exists_of_bind_eq_ok h
  obtain ⟨statements, rfl, hsentences⟩ := Program.ofTokens_eq_ok_iff.mp htokens
  obtain ⟨phrase, hphrase⟩ := hsentences.exists_of_mem hst
  cases hphrase with
  | exportsImport _ h =>
    cases h with
    | mk _ _ hform => exact exportable_of_resolve hform
  | exportsFunction _ h =>
    cases h with
    | mk => exact .function rfl
  | imports h | function h =>
    cases h
    cases hexported
  | _ => cases hexported

/-! ## The closure -/

/-- The modules that the statements of a program import, exported or not. -/
def Program.ownModules (program : Program) : List Module :=
  program.statements.filterMap (·.form.module?)

/-- What a statement of an imported file offers, where `read` tells what other files offer. The
modules that the file imports are not counted here. -/
def Statement.offersBy (read : SourceFile → List Offer) (st : Statement) : List Offer :=
  if st.exported then
    match st.form with
    | .function declaration => [.function declaration]
    | .useFile file _ => read file
    | _ => []
  else []

namespace Loader

/-- All that a file offers: first the modules that it imports, exported or not, then what its
statements offer, one after another. A file that does not load offers nothing. -/
def offers (loader : Loader) (file : SourceFile) : List Offer :=
  match loader.files.fileAt? file.path with
  | none => []
  | some place =>
    if hplace : place ∈ loader.inProgress then []
    else
      match hread : loader.files.read place with
      | .error _ => []
      | .ok source =>
        match (loader.forImport file place).ofSource source with
        | .error _ => []
        | .ok program =>
          have := remaining_forImport_lt file hplace hread
          program.ownModules.map .module ++
            program.statements.flatMap
              (·.offersBy fun inner => (loader.forImport file place).offers inner)
termination_by loader.remaining
decreasing_by assumption

/-- The file can be imported and is read as the program. -/
structure Reads (loader : Loader) (file : SourceFile) (place : Place) (program : Program) :
    Prop where
  found : loader.files.fileAt? file.path = some place
  idle : place ∉ loader.inProgress
  read : loader.files.read place = .ok file.source
  load : (loader.forImport file place).ofSource file.source = .ok program

variable {loader : Loader} {file : SourceFile} {place : Place} {program : Program}

theorem Reads.remaining_lt (h : loader.Reads file place program) :
    (loader.forImport file place).remaining < loader.remaining :=
  remaining_forImport_lt file h.idle h.read

theorem Reads.offers_eq (h : loader.Reads file place program) :
    loader.offers file = program.ownModules.map .module ++
      program.statements.flatMap (·.offersBy (loader.forImport file place).offers) := by
  rw [offers, h.found]
  dsimp only
  rw [dif_neg h.idle]
  split
  · next hread => cases hread.symm.trans h.read
  · next source hread =>
    cases hread.symm.trans h.read
    rw [h.load]

/-- An import that stands for a file reads the file and keeps what it exports. -/
theorem exists_reads_of_resolve {target : Token}
    (h : loader.resolve target = .ok (.useFile file program)) :
    ∃ place whole, loader.Reads file place whole ∧
      program = { whole with statements := whole.statements.filter (·.exported) } := by
  have hresolved := loader.resolved_resolve target
  rw [h] at hresolved
  cases hresolved with
  | @file _ place whole hopens hload _ =>
    refine ⟨place, whole, ⟨?_, hopens.idle, hopens.read, hload⟩, rfl⟩
    have hfound := hopens.found
    unfold fileAt? at hfound
    split at hfound
    · rw [hopens.path]
      exact hfound
    · cases hfound

/-- The statement is exported by the file, or by a file that is exported by it in turn. -/
inductive Exported : Loader → SourceFile → Statement → Prop
  | own {loader : Loader} {file : SourceFile} {place : Place} {program : Program} {st : Statement}
      (hreads : loader.Reads file place program) (hst : st ∈ program.statements)
      (hexported : st.exported = true) : Exported loader file st
  | through {loader : Loader} {file inner : SourceFile} {place : Place} {program rest : Program}
      {outer st : Statement} (hreads : loader.Reads file place program)
      (houter : outer ∈ program.statements) (hexported : outer.exported = true)
      (hform : outer.form = .useFile inner rest)
      (hinner : Exported (loader.forImport file place) inner st) : Exported loader file st

theorem Exported.isExport {st : Statement} (h : loader.Exported file st) : st.form.IsExport := by
  induction h with
  | own hreads hst hexported => exact (exportable_of_ofSource hreads.load hst hexported).isExport
  | through _ _ _ _ _ ih => exact ih

/-- A function that is exported belongs to an imported file. -/
theorem Exported.file_ne_none {st : Statement} (h : loader.Exported file st) {d : Declaration}
    (hform : st.form = .function d) : d.file ≠ none := by
  induction h with
  | own hreads hst hexported =>
    have hexportable := exportable_of_ofSource hreads.load hst hexported
    rw [hform] at hexportable
    cases hexportable with
    | function hfile =>
      rw [hfile]
      exact Option.some_ne_none _
  | through _ _ _ _ _ ih => exact ih hform

/-- What is kept of a file that is imported by an exported statement is exported as well. -/
theorem Exported.of_mem {st : Statement} (h : loader.Exported file st) {inner : SourceFile}
    {rest : Program} (hform : st.form = .useFile inner rest) {other : Statement}
    (hother : other ∈ rest.statements) : loader.Exported file other := by
  induction h with
  | own hreads hst hexported =>
    have hexportable := exportable_of_ofSource hreads.load hst hexported
    rw [hform] at hexportable
    cases hexportable with
    | useFile hresolve =>
      obtain ⟨place, whole, hinner, rfl⟩ := exists_reads_of_resolve hresolve
      obtain ⟨hmem, hkept⟩ := List.mem_filter.mp hother
      exact .through hreads hst hexported hform (.own hinner hmem hkept)
  | through hreads houter hexported houterForm _ ih =>
    exact .through hreads houter hexported houterForm (ih hform)

theorem Exported.mem_offers {st : Statement} (h : loader.Exported file st) {d : Declaration}
    (hform : st.form = .function d) : .function d ∈ loader.offers file := by
  induction h with
  | own hreads hst hexported =>
    rw [hreads.offers_eq]
    refine List.mem_append_right _ (List.mem_flatMap.mpr ⟨_, hst, ?_⟩)
    rw [Statement.offersBy, if_pos hexported, hform]
    exact List.mem_singleton_self _
  | through hreads houter hexported houterForm _ ih =>
    rw [hreads.offers_eq]
    refine List.mem_append_right _ (List.mem_flatMap.mpr ⟨_, houter, ?_⟩)
    rw [Statement.offersBy, if_pos hexported, houterForm]
    exact ih hform

/-- The functions that a file offers are exported. The induction is on the files that are not in
progress. -/
theorem exists_exported_of_mem_offers (hreads : loader.Reads file place program) {d : Declaration}
    (hd : .function d ∈ loader.offers file) :
    ∃ st, loader.Exported file st ∧ st.form = .function d := by
  induction hn : loader.remaining using Nat.strongRecOn generalizing loader file place program with
  | ind n ih =>
    rw [hreads.offers_eq] at hd
    rcases List.mem_append.mp hd with hd | hd
    · obtain ⟨_, -, hmodule⟩ := List.mem_map.mp hd
      cases hmodule
    · obtain ⟨st, hst, hd⟩ := List.mem_flatMap.mp hd
      unfold Statement.offersBy at hd
      split at hd
      · next hexported =>
        have hexportable := exportable_of_ofSource hreads.load hst hexported
        cases hform : st.form with
        | function declaration =>
          rw [hform] at hd
          cases List.mem_singleton.mp hd
          exact ⟨st, .own hreads hst hexported, hform⟩
        | useFile inner rest =>
          rw [hform] at hd hexportable
          cases hexportable with
          | useFile hresolve =>
            obtain ⟨_, _, hinner, -⟩ := exists_reads_of_resolve hresolve
            obtain ⟨other, hother, hd⟩ := ih _ (hn ▸ hreads.remaining_lt) hinner hd rfl
            exact ⟨other, .through hreads hst hexported hform hother, hd⟩
        | _ =>
          rw [hform] at hd
          cases hd
      · cases hd

/-! ## Running an import -/

section Run

variable {invoke : Invoke} {s t : State} {st : Statement}

theorem run_function {d : Declaration} (hform : st.form = .function d)
    (hfile : d.file = some file) :
    s.run (Exec.decorate (·.inFile file.path file.source) (Exec.statement invoke st)) =
      s.bring [.function d] := by
  rw [Exec.run_decorate, Exec.statement_eq, Exec.run_decorate, hform, Exec.formOf, Exec.run_bind,
    Exec.declareFunction, Exec.run_get_bind, State.bring]
  by_cases hsome : (s.function? d.name).isSome
  · rw [if_pos hsome, if_pos hsome, State.clash_of_file hfile]
    rfl
  · rw [if_neg hsome, if_neg hsome]
    rfl

/-- The modules that a file imports are in view before its first statement runs. -/
theorem run_useModule {module : Module} (hform : st.form = .useModule module)
    (hmem : module.name ∈ s.imports.names) :
    s.run (Exec.decorate (·.inFile file.path file.source) (Exec.statement invoke st)) =
      (.ok .goOn, s) := by
  have hrun : s.run (Exec.formOf invoke st.span st.scope (.useModule module)) =
      (.ok .goOn, { s with imports := s.imports.insert module }) := by
    rw [Exec.formOf]
    rfl
  rw [Exec.run_decorate, Exec.statement_eq, Exec.run_decorate, hform, hrun,
    ImportTable.insert_of_mem hmem]

/-- A statement that imports a file which brings in some offers. Their errors belong to files
already. -/
theorem run_inner {offers : List Offer} (hfile : ∀ d, .function d ∈ offers → d.file ≠ none)
    (hrun : s.run (Exec.statement invoke st) = s.bring offers) :
    s.run (Exec.decorate (·.inFile file.path file.source) (Exec.statement invoke st)) =
      s.bring offers := by
  rw [Exec.run_decorate, hrun]
  cases hbring : s.bring offers with
  | mk result t =>
    cases result with
    | ok flow => rfl
    | error e =>
      obtain ⟨d, hd, rfl⟩ := State.exists_clash_of_bring hbring
      exact congrArg (fun e => (Except.error e, t)) (State.inFile_clash (hfile d hd) _ _)

theorem run_statementsOf_cons_ok {f : Error → Error} {rest : List Statement}
    (h : s.run (Exec.decorate f (Exec.statement invoke st)) = (.ok .goOn, t)) :
    s.run (Exec.decorate f (Exec.statementsOf invoke (st :: rest))) =
      t.run (Exec.decorate f (Exec.statementsOf invoke rest)) := by
  rw [Exec.run_decorate] at h
  split at h
  · next hrun =>
    cases h
    rw [Exec.run_decorate, Exec.run_decorate, Exec.run_statementsOf_cons hrun]
  · cases h

theorem run_statementsOf_cons_error {f : Error → Error} {rest : List Statement} {e : Error}
    (h : s.run (Exec.decorate f (Exec.statement invoke st)) = (.error e, t)) :
    s.run (Exec.decorate f (Exec.statementsOf invoke (st :: rest))) = (.error e, t) := by
  rw [Exec.run_decorate] at h
  split at h
  · cases h
  · next hrun => rw [Exec.run_decorate, Exec.statementsOf, Exec.run_bind, hrun, ← h]

/-- All imports of files that the loader resolves bring in what the files offer. -/
def Brings (invoke : Invoke) (loader : Loader) : Prop :=
  ∀ (target : Token) (file : SourceFile) (program : Program) (st : Statement) (s : State),
    loader.resolve target = .ok (.useFile file program) → st.form = .useFile file program →
      s.run (Exec.statement invoke st) = s.bring (loader.offers file)

theorem run_exported (hreads : loader.Reads file place program)
    (hbrings : Brings invoke (loader.forImport file place)) (hst : st ∈ program.statements)
    (hexported : st.exported = true)
    (hview : ∀ module ∈ program.ownModules, module.name ∈ s.imports.names) :
    s.run (Exec.decorate (·.inFile file.path file.source) (Exec.statement invoke st)) =
      s.bring (st.offersBy (loader.forImport file place).offers) := by
  have hexportable := exportable_of_ofSource hreads.load hst hexported
  rw [Statement.offersBy, if_pos hexported]
  cases hform : st.form with
  | function d =>
    rw [hform] at hexportable
    cases hexportable with
    | function hfile => exact run_function hform hfile
  | useModule module =>
    exact run_useModule hform (hview module (List.mem_filterMap.mpr ⟨st, hst, by rw [hform]; rfl⟩))
  | useFile inner rest =>
    rw [hform] at hexportable
    cases hexportable with
    | useFile hresolve =>
      refine run_inner (fun d hd => ?_) (hbrings _ _ _ _ _ hresolve hform)
      obtain ⟨_, _, hinner, -⟩ := exists_reads_of_resolve hresolve
      obtain ⟨other, hother, hd⟩ := exists_exported_of_mem_offers hinner hd
      exact hother.file_ne_none hd
  | _ =>
    rw [hform] at hexportable
    cases hexportable

/-- The exported statements of a file bring in what they offer, one after another. -/
theorem run_exports (hreads : loader.Reads file place program)
    (hbrings : Brings invoke (loader.forImport file place)) {statements : List Statement}
    (hsub : statements ⊆ program.statements)
    (hview : ∀ module ∈ program.ownModules, module.name ∈ s.imports.names) :
    s.run (Exec.decorate (·.inFile file.path file.source)
        (Exec.statementsOf invoke (statements.filter (·.exported)))) =
      s.bring (statements.flatMap (·.offersBy (loader.forImport file place).offers)) := by
  induction statements generalizing s with
  | nil =>
    rw [List.filter_nil, Exec.statementsOf]
    rfl
  | cons st rest ih =>
    obtain ⟨hst, hrest⟩ := List.cons_subset.mp hsub
    rw [List.flatMap_cons]
    by_cases hexported : st.exported = true
    · rw [List.filter_cons_of_pos hexported]
      have hfirst := run_exported hreads hbrings hst hexported hview
      cases hbring : s.bring (st.offersBy (loader.forImport file place).offers) with
      | mk result t =>
        rw [hbring] at hfirst
        cases result with
        | ok flow =>
          obtain ⟨rfl, rfl⟩ := State.eq_goOn_of_bring hbring
          rw [run_statementsOf_cons_ok hfirst, State.bring_append_of_ok hbring]
          exact ih hrest fun module hmodule =>
            ImportTable.names_subset_foldl_insert _ _ (hview module hmodule)
        | error e =>
          rw [run_statementsOf_cons_error hfirst, State.bring_append_of_error hbring]
    · rw [List.filter_cons_of_neg hexported, Statement.offersBy, if_neg hexported, List.nil_append]
      exact ih hrest hview

theorem Reads.merge_eq (hreads : loader.Reads file place program) (table : ImportTable) :
    table.merge program.imports =
      program.ownModules.foldl ImportTable.insert table := by
  obtain ⟨tokens, -, htokens⟩ := exists_of_bind_eq_ok hreads.load
  obtain ⟨statements, rfl, -⟩ := Program.ofTokens_eq_ok_iff.mp htokens
  exact ImportTable.merge_ofStatements table statements

/-- The import of a file brings in what the file offers. The induction is on the files that are not
in progress. -/
theorem brings (invoke : Invoke) (loader : Loader) : Brings invoke loader := by
  induction hn : loader.remaining using Nat.strongRecOn generalizing loader with
  | ind n ih =>
    intro target file program st s hresolve hform
    obtain ⟨place, whole, hreads, rfl⟩ := exists_reads_of_resolve hresolve
    have hbrings := ih _ (hn ▸ hreads.remaining_lt) (loader.forImport file place) rfl
    have hview : ∀ module ∈ whole.ownModules,
        module.name ∈ (s.imports.merge whole.imports).names := by
      intro module hmodule
      rw [hreads.merge_eq]
      exact ImportTable.mem_names_foldl_insert hmodule
    have hexports := run_exports (s := { s with imports := s.imports.merge whole.imports }) hreads
      hbrings (List.Subset.refl _) hview
    have hmerge : s.run (Exec.mergeImports whole.imports) =
        (.ok (), { s with imports := s.imports.merge whole.imports }) := rfl
    rw [hreads.offers_eq, State.bring_modules, ← hreads.merge_eq, Exec.statement_eq,
      Exec.run_decorate, hform, Exec.formOf, Exec.run_bind, hmerge]
    dsimp only
    rw [Exec.run_bind, Exec.programOf_eq, hexports]
    generalize hbring : State.bring _ _ = outcome
    obtain ⟨result, t⟩ := outcome
    cases result with
    | ok flow =>
      obtain ⟨rfl, -⟩ := State.eq_goOn_of_bring hbring
      rfl
    | error e =>
      obtain ⟨d, -, rfl⟩ := State.exists_clash_of_bring hbring
      exact congrArg (fun e => (Except.error e, t))
        (Error.orAt_of_span (State.clash_span d) st.span)

end Run

/-! ## The statements that run -/

theorem invocations_of_isExport {form : Form} (h : form.IsExport) (invoke : Invoke) (s : State) :
    form.invocations invoke s = [] := by
  cases form with
  | function | useModule | useFile => rfl
  | _ => exact h.elim

/-- While exported statements run, nothing but exported statements runs. -/
theorem Exported.of_during {levels : Nat} {scopes : List Variables} {statements : List Statement}
    {s : State} {m : Moment} (h : m.During levels scopes statements s)
    (hall : ∀ st ∈ statements, loader.Exported file st) : loader.Exported file m.statement := by
  induction h with
  | here => exact hall _ List.mem_cons_self
  | next _ _ ih => exact ih fun st hst => hall st (List.mem_cons_of_mem _ hst)
  | file hform _ ih => exact ih fun st hst => (hall _ List.mem_cons_self).of_mem hform hst
  | call hi =>
    rw [invocations_of_isExport (hall _ List.mem_cons_self).isExport] at hi
    cases hi

theorem exported_of_during {target : Token} {st : Statement} {levels : Nat}
    {scopes : List Variables} {s : State} {m : Moment}
    (hresolve : loader.resolve target = .ok (.useFile file program))
    (hform : st.form = .useFile file program) (h : m.During levels scopes [st] s) :
    m.statement = st ∨ loader.Exported file m.statement := by
  obtain ⟨place, whole, hreads, rfl⟩ := exists_reads_of_resolve hresolve
  cases h with
  | here => exact .inl rfl
  | next _ h => cases h
  | file hfile h =>
    cases hform.symm.trans hfile
    refine .inr (Exported.of_during h fun st hst => ?_)
    obtain ⟨hst, hexported⟩ := List.mem_filter.mp hst
    exact .own hreads hst hexported
  | call hi =>
    rw [hform] at hi
    cases hi

/-! ## The import of a file -/

/-- The import of a file brings in exactly the closure of its exports, whatever the state and
whatever calls do.

* The file loads. It offers the modules that it imports, exported or not, then what its exported
  statements offer in their order.
* If the names of the functions among the offers are free, then the import succeeds and all offers
  are taken up.
* Otherwise it fails at the first function whose name is taken when its turn comes, and the offers
  before it are kept.
* Of the modules, those whose names are new come behind the ones that are in view, each name once.
* Nothing else changes in the state.
* The functions among the offers are those that are declared by exported statements of the file, or
  of a file that is exported in turn. No other functions are declared, and no other statements run.
  -/
theorem import_brings_closure {target : Token}
    (hresolve : loader.resolve target = .ok (.useFile file program)) {st : Statement}
    (hform : st.form = .useFile file program) (invoke : Invoke) (s : State) :
    (∃ place whole, loader.Reads file place whole ∧
      loader.offers file = whole.ownModules.map .module ++
        whole.statements.flatMap (·.offersBy (loader.forImport file place).offers)) ∧
    (s.Free (functionsOf (loader.offers file)) →
      s.run (Exec.statement invoke st) = (.ok .goOn, s.withOffers (loader.offers file))) ∧
    (¬ s.Free (functionsOf (loader.offers file)) →
      ∃ before d after, loader.offers file = before ++ .function d :: after ∧
        s.Free (functionsOf before) ∧ (s.withOffers before).function? d.name ≠ none ∧
        s.run (Exec.statement invoke st) = (.error (State.clash d), s.withOffers before)) ∧
    (∀ offers, (s.withOffers offers).imports.names = s.imports.names ++
        (((modulesOf offers).map Module.name).filter (· ∉ s.imports.names)).eraseDups ∧
      s.imports.modules <+: (s.withOffers offers).imports.modules ∧
      ∀ module ∈ (s.withOffers offers).imports.modules,
        module ∈ s.imports.modules ∨ module ∈ modulesOf offers) ∧
    (∃ functions imports,
      (s.run (Exec.statement invoke st)).2 = { s with functions, imports } ∧
      ∀ d ∈ functions, d ∈ s.functions ∨ .function d ∈ loader.offers file) ∧
    (∀ d, .function d ∈ loader.offers file ↔
      ∃ other, loader.Exported file other ∧ other.form = .function d) ∧
    ∀ levels scopes m, Moment.During levels scopes [st] s m →
      m.statement = st ∨ loader.Exported file m.statement := by
  obtain ⟨place, whole, hreads, -⟩ := exists_reads_of_resolve hresolve
  rw [brings invoke loader target file program st s hresolve hform]
  refine ⟨⟨place, whole, hreads, hreads.offers_eq⟩, fun hfree => ?_, fun htaken => ?_,
    fun offers => ?_, ?_, fun d => ⟨exists_exported_of_mem_offers hreads, ?_⟩,
    fun levels scopes m h => ?_⟩
  · rcases s.bring_cases (loader.offers file) with
      ⟨-, hrun⟩ | ⟨before, d, after, hsplit, -, htaken, -⟩
    · exact hrun
    · rw [hsplit] at hfree
      exact absurd hfree.function?_eq_none htaken
  · rcases s.bring_cases (loader.offers file) with ⟨hfree, -⟩ | hclash
    · exact absurd hfree htaken
    · exact hclash
  · exact ⟨ImportTable.names_foldl_insert _ _, ImportTable.prefix_foldl_insert _ _,
      fun module => ImportTable.mem_foldl_insert⟩
  · exact s.bring_frame _
  · rintro ⟨other, hother, hd⟩
    exact hother.mem_offers hd
  · exact exported_of_during hresolve hform h

/-- A file that exports two functions and another file between them. It also imports a module and a
file that it does not export, and has statements of its own. -/
def libraryText : String :=
  "import 'Array' var hidden = 1 export function a() \x7b \x7d function secret() \x7b \x7d " ++
    "export import 'g.mrk' import 'h.mrk' export function b() \x7b \x7d"

/-- The file, next to the two files that it imports. -/
def libraryLoader : Loader where
  registry := Library.standard
  files :=
    { entries :=
        [(["lib", "f.mrk"], .text libraryText),
          (["lib", "g.mrk"], .text "import 'String' export function g() \x7b \x7d"),
          (["lib", "h.mrk"], .text "export function h() \x7b \x7d")] }

/-- A name that leads to the file. -/
def libraryTarget : Token where
  kind := .string
  lexeme := "lib/f.mrk"

/-- The file as it is found by its name. -/
def libraryFile : SourceFile where
  path := "./lib/f.mrk"
  source := libraryText

/-- Whether a form imports the file. -/
def importsLibrary : Form → Bool
  | .useFile file _ => file = libraryFile
  | _ => false

/-- A statement that imports the file. -/
def libraryImport (program : Program) : Statement where
  form := .useFile libraryFile program
  span := {}
  scope := none
  exported := false

/-- A function with the name of one that the file exports. -/
def occupant : Declaration where
  name := "g"
  params := []
  body := .ofStatements []
  span := {}
  file := none

/-- In an empty state, the import succeeds. If one of the names is taken, then the import stops at
this name. -/
theorem import_brings_closure_library : ∃ program,
    libraryLoader.resolve libraryTarget = .ok (.useFile libraryFile program) ∧
    (functionsOf (libraryLoader.offers libraryFile)).map Declaration.name = ["a", "g", "b"] ∧
    (modulesOf (libraryLoader.offers libraryFile)).map Module.name = ["Array", "String"] ∧
    ({} : State).run (Exec.statement (callWithin callLimit) (libraryImport program)) =
      (.ok .goOn, ({} : State).withOffers (libraryLoader.offers libraryFile)) ∧
    ∃ d kept, ({ functions := [occupant] } : State).run
        (Exec.statement (callWithin callLimit) (libraryImport program)) =
          (.error (State.clash d), ({ functions := [occupant] } : State).withOffers kept) ∧
      d.name = "g" ∧ (functionsOf kept).map Declaration.name = ["a"] := by
  have hfacts : (libraryLoader.resolve libraryTarget).toOption.any importsLibrary = true ∧
      (functionsOf (libraryLoader.offers libraryFile)).map Declaration.name = ["a", "g", "b"] ∧
      (modulesOf (libraryLoader.offers libraryFile)).map Module.name = ["Array", "String"] := by
    decide +kernel
  obtain ⟨himport, hfunctions, hmodules⟩ := hfacts
  obtain ⟨form, hsome, hfile⟩ := (Option.any_eq_true _ _).mp himport
  cases form with
  | useFile file program =>
    cases of_decide_eq_true hfile
    have hresolve := eq_ok_of_toOption hsome
    have hform : (libraryImport program).form = .useFile libraryFile program := rfl
    obtain ⟨-, hsucceeds, -⟩ :=
      import_brings_closure hresolve hform (callWithin callLimit) {}
    obtain ⟨-, -, hfails, -⟩ := import_brings_closure hresolve hform
      (callWithin callLimit) { functions := [occupant] }
    refine ⟨program, hresolve, hfunctions, hmodules,
      hsucceeds ⟨hfunctions ▸ by decide, fun _ _ => rfl⟩, ?_⟩
    -- no function of this name is free
    have hoccupied : ∀ functions : List Declaration, "g" ∈ functions.map Declaration.name →
        ¬ State.Free { functions := [occupant] } functions := by
      intro functions hg hfree
      obtain ⟨d, hd, hname⟩ := List.mem_map.mp hg
      have hnone := hfree.2 d hd
      rw [hname] at hnone
      cases hnone
    obtain ⟨before, d, after, hsplit, hfree, hname, hrun⟩ :=
      hfails (hoccupied _ (by rw [hfunctions]; simp))
    refine ⟨d, before, hrun, ?_⟩
    have hnames : (functionsOf before).map Declaration.name ++
        d.name :: (functionsOf after).map Declaration.name = ["a", "g", "b"] := by
      rw [← hfunctions, hsplit]
      simp [functionsOf, Offer.function?]
    have hg := mt (hoccupied (functionsOf before)) (not_not.mpr hfree)
    rcases hbefore : functionsOf before with _ | ⟨x, _ | ⟨y, rest⟩⟩
    · rw [hbefore] at hnames
      obtain ⟨ha, -⟩ := List.cons.inj hnames
      simp [State.function?, State.withOffers, hbefore, ha, occupant] at hname
    · rw [hbefore] at hnames
      obtain ⟨hx, hnames⟩ := List.cons.inj hnames
      exact ⟨(List.cons.inj hnames).1, by rw [List.map_singleton, hx]⟩
    · rw [hbefore] at hnames hg
      obtain ⟨-, hnames⟩ := List.cons.inj hnames
      obtain ⟨hy, -⟩ := List.cons.inj hnames
      simp [hy] at hg
  | _ => cases hfile

end Loader

end Scripting
