import Scripting.Proofs.ImportGraph
import Scripting.Proofs.Order

/-!
# A script as a file and as a text

A script can be run as a file, or as a text together with the directory in which its imports are
looked up. The two differ while the script is read: the file has a place, which counts as in
progress, and the text has none. The place is passed on to the reading of every imported file, but
it is looked at only where an import leads to it. So a script that no walk through its imports leads
back to is read in the same way (`ofSource_whileReading`), and then there is nothing left that could
differ, except for the line of the script that an error quotes.
-/

namespace Scripting

/-! ## Places that imports do not lead to -/

/-- No walk through the imports of the text comes to the place. -/
def FileTree.Avoids (tree : FileTree) (base source : String) (place : Place) : Prop :=
  ∀ visits, tree.Chain base source visits → ∀ visit ∈ visits, visit.place ≠ place

namespace FileTree.Avoids

variable {tree : FileTree} {base source : String} {place : Place} {visit : Visit}

theorem of_imports (h : tree.Avoids base source place)
    (himports : tree.Imports base source visit) : visit.place ≠ place :=
  h [visit] (.single himports) visit (List.mem_singleton.mpr rfl)

/-- A place that is avoided by a text is avoided by the files that the text imports. -/
theorem below (h : tree.Avoids base source place) (himports : tree.Imports base source visit)
    {text : String} (hread : tree.read visit.place = .ok text) :
    tree.Avoids (Path.directory visit.path) text place :=
  fun visits hvisits later hlater =>
    h (visit :: visits) (.cons himports hread hvisits) later (List.mem_cons_of_mem _ hlater)

end FileTree.Avoids

/-! ## One more place in progress -/

namespace Loader

/-- The loader when all of its reading is done on behalf of the file at the place. -/
def whileReading (loader : Loader) (place : Place) : Loader :=
  { loader with inProgress := loader.inProgress ++ [place] }

variable {loader : Loader} {place : Place}

/-- An import that leads elsewhere stands for the same thing, if this is so for the file that it
opens. -/
theorem resolveBy_whileReading {target : Token}
    (hplace : ∀ found, loader.fileAt? target.lexeme = some found → found ≠ place)
    (hread : ∀ file found, loader.Opens target.lexeme file found →
      load ⟨(loader.forImport file found).whileReading place, file.source⟩ =
        load ⟨loader.forImport file found, file.source⟩) :
    resolveBy load (loader.whileReading place) target = resolveBy load loader target := by
  have hfileAt : (loader.whileReading place).fileAt? target.lexeme =
      loader.fileAt? target.lexeme := rfl
  unfold resolveBy
  rw [hfileAt]
  cases hmodule : loader.registry.resolve? target.lexeme with
  | some module =>
    rw [show (loader.whileReading place).registry.resolve? target.lexeme = some module from hmodule]
    cases loader.fileAt? target.lexeme <;> rfl
  | none =>
    rw [show (loader.whileReading place).registry.resolve? target.lexeme = none from hmodule]
    cases hfound : loader.fileAt? target.lexeme with
    | none => rfl
    | some found =>
      have hprogress : (loader.whileReading place).inProgress.contains found =
          loader.inProgress.contains found := by
        simp [whileReading, hplace found hfound]
      dsimp only
      rw [hprogress]
      split
      · rfl
      · next hidle =>
        rw [show (loader.whileReading place).files.read found = loader.files.read found from rfl]
        cases hsource : loader.files.read found with
        | error fault => rfl
        | ok source =>
          have hopens : loader.Opens target.lexeme
              { path := loader.path target.lexeme, source } found :=
            ⟨hmodule, hfound, mt List.contains_iff_mem.mpr hidle, rfl, hsource⟩
          exact congrArg (importOf target { path := loader.path target.lexeme, source })
            (hread _ found hopens)

/-- A place that the imports of a text do not lead to makes no difference to the reading of the
text. The induction is on the files that are not in progress, as in the definition of `resolve`. -/
theorem ofSource_whileReading {source : String}
    (h : loader.files.Avoids loader.base source place) :
    (loader.whileReading place).ofSource source = loader.ofSource source := by
  induction hn : loader.remaining using Nat.strongRecOn generalizing loader source with
  | ind n ih =>
    refine bind_congr_of_ok fun tokens hscan => ?_
    unfold ofTokens
    rw [resolve_eq, resolve_eq]
    refine Program.ofTokens_congr (fun target htarget => ?_) _
    have himports : ∀ found, loader.fileAt? target.lexeme = some found →
        loader.files.Imports loader.base source
          { name := target.lexeme, path := loader.path target.lexeme, place := found } :=
      fun found hfound => imports_of_fileAt? hscan htarget hfound
    refine resolveBy_whileReading (fun found hfound => h.of_imports (himports found hfound)) ?_
    intro file found hopens
    refine ih _ (hn ▸ hopens.remaining_lt) ?_ rfl
    have hbelow := h.below (himports found hopens.found) hopens.read
    rwa [← hopens.path] at hbelow

end Loader

/-! ## The two ways to run a script -/

/-- The script of a file is read as the text that it is, while the file is in progress. -/
theorem Loader.forScript_eq {files : FileTree} {path : String} {place : Place}
    (hplace : files.reach path = .ok place) (base : String) :
    { Loader.forScript { registry := Library.standard, files } path with base } =
      Loader.whileReading { registry := Library.standard, files, base } place := by
  unfold FileTree.reach at hplace
  split at hplace
  · cases hplace
  · unfold forScript
    simp only [hplace]
    rfl

/-- Running a script as a file, as a function of what its text loads as. -/
theorem runFile_eq {files : FileTree} {path source : String} {place : Place}
    (hplace : files.reach path = .ok place) (hsource : files.read place = .ok source)
    (base? : Option String) (console : Console) (order : Order) :
    runFile files path base? console order =
      (({ console, scopes := { order } } : State).executeLoaded
        ((Loader.whileReading { registry := Library.standard, files
                                base := base?.getD (Path.directory path) } place).ofSource
          source)).map (·.mapError (·.withSource source)) id := by
  have hread : files.readPath path = .ok source := by
    rw [FileTree.readPath, hplace]
    exact hsource
  unfold runFile
  rw [hread]
  dsimp only
  rw [Loader.forScript_eq hplace]
  rfl

/-- Running a script as a file and running it as a text come to the same, if no walk through the
imports of the script leads back to its file. The tables of the scopes are gone through in the same
order in both runs, or all names that the script looks up are definite. Both leave the same state
behind but for the order, with the same console and the same records. Both succeed, or both fail with
errors of the same cause, at the same place of the same file. -/
theorem runFile_agrees_with_runSource {files : FileTree} {path source : String} {place : Place}
    (base? : Option String) (hplace : files.reach path = .ok place)
    (hsource : files.read place = .ok source)
    (havoids : files.Avoids (base?.getD (Path.directory path)) source place) (console : Console)
    (order order' : Order) (horder : order' = order ∨ ∀ program,
      Loader.ofSource { registry := Library.standard, files
                        base := base?.getD (Path.directory path) } source = .ok program →
        program.DefiniteFrom { console, scopes := { order } }) :
    (runFile files path base? console order').2.inOrder order =
      (runSource files (base?.getD (Path.directory path)) source console order).2.inOrder order ∧
    ((runFile files path base? console order').1 = .ok () ∧
        (runSource files (base?.getD (Path.directory path)) source console order).1 = .ok () ∨
      ∃ e e' : Error, (runFile files path base? console order').1 = .error e ∧
        (runSource files (base?.getD (Path.directory path)) source console order).1 = .error e' ∧
        e.cause = e'.cause ∧ e.span = e'.span ∧ e.file = e'.file) := by
  have hfile : runFile files path base? console order' =
      (runSource files (base?.getD (Path.directory path)) source console order').map
        (·.mapError (·.withSource source)) id := by
    rw [runFile_eq hplace hsource, Loader.ofSource_whileReading havoids]
    rfl
  -- the text is run in both orders
  obtain ⟨hsame, hafter⟩ :
      (runSource files (base?.getD (Path.directory path)) source console order').1 =
        (runSource files (base?.getD (Path.directory path)) source console order).1 ∧ _ :=
    State.executeLoaded_eq_of_definite (s := { console }) horder
  rw [hfile]
  refine ⟨hafter, ?_⟩
  rw [Prod.map_fst, hsame]
  cases (runSource files (base?.getD (Path.directory path)) source console order).1 with
  | ok _ => exact .inl ⟨rfl, rfl⟩
  | error e => exact .inr ⟨e.withSource source, e, rfl, rfl, e.withSource_eq source⟩

/-- A script that loads while its file is in progress does not lead back to the file. -/
theorem Loader.avoids_of_ofSource {files : FileTree} {base source : String} {place : Place}
    {program : Program} (h : (Loader.whileReading { registry := Library.standard, files, base }
      place).ofSource source = .ok program) : files.Avoids base source place := by
  intro visits hvisits visit hvisit heq
  have hnodup := Loader.nodup_of_chain (List.nodup_singleton _) h hvisits
  exact (List.nodup_cons.mp hnodup).1 (List.mem_map.mpr ⟨visit, hvisit, heq⟩)

/-- A script that imports a file and calls a function of it, and then one that there is not. -/
def callerText : String := "import 'lib/a.mrk' var x = f() g()"

/-- The files of the script, which lies next to the directory of the file that it imports. -/
def callerTree : FileTree where
  entries :=
    [(["app", "main.mrk"], .text callerText),
      (["lib", "a.mrk"], .text "export import 'b.mrk' export function f() \x7b return h() \x7d"),
      (["lib", "b.mrk"], .text "export function h() \x7b return 1 \x7d")]

/-- The script is run from a directory that is not its own. It fails, and what it did before is the
same either way, in any order. -/
theorem runFile_agrees_with_runSource_failing :
    callerTree.Avoids "." callerText ["app", "main.mrk"] ∧
    (runSource callerTree "." callerText {}).2.log.size = 3 ∧
    ∀ order, (runFile callerTree "app/main.mrk" (some ".") {} order).2.inOrder .rotating =
        (runSource callerTree "." callerText {}).2.inOrder .rotating ∧
      ∃ e e' : Error, (runFile callerTree "app/main.mrk" (some ".") {} order).1 = .error e ∧
        (runSource callerTree "." callerText {}).1 = .error e' ∧
        e'.cause = .undefinedFunction "g" ∧ e'.sourceLine = none ∧
        e.cause = e'.cause ∧ e.span = e'.span ∧ e.file = e'.file := by
  have hplace : callerTree.reach "app/main.mrk" = .ok ["app", "main.mrk"] := by decide +kernel
  have hsource : callerTree.read ["app", "main.mrk"] = .ok callerText := by decide +kernel
  have hloads : ((Loader.whileReading
      { registry := Library.standard, files := callerTree } ["app", "main.mrk"]).ofSource
        callerText).isOk := by decide +kernel
  have hfacts : (runSource callerTree "." callerText {}).2.log.size = 3 ∧
      (runSource callerTree "." callerText {}).1.mapError (fun e => (e.cause, e.sourceLine)) =
        .error (.undefinedFunction "g", none) := by decide +kernel
  have hchecked : (Loader.ofSource { registry := Library.standard, files := callerTree }
      callerText).toOption.any (fun program => Moment.allDefinite callLimit program.statements
        (State.prepare {} program)) = true := by decide +kernel
  have havoids : callerTree.Avoids "." callerText ["app", "main.mrk"] := by
    obtain ⟨program, hprogram⟩ := exists_of_isOk hloads
    exact Loader.avoids_of_ofSource hprogram
  have hdefinite : ∀ program, Loader.ofSource { registry := Library.standard, files := callerTree }
      callerText = .ok program → program.DefiniteFrom {} := by
    intro program hprogram
    rw [hprogram] at hchecked
    exact Program.definiteFrom_of_allDefinite hchecked
  refine ⟨havoids, hfacts.1, fun order => ?_⟩
  obtain ⟨hstate, hends⟩ :=
    runFile_agrees_with_runSource (some ".") hplace hsource havoids {} .rotating order
      (.inr hdefinite)
  obtain ⟨error, herror, hcause⟩ := exists_of_mapError_eq_error hfacts.2
  obtain ⟨hcause, hline⟩ := Prod.mk.inj hcause
  rcases hends with ⟨-, hok⟩ | ⟨e, e', he, he', hsame⟩
  · cases herror.symm.trans hok
  · cases herror.symm.trans he'
    exact ⟨hstate, e, error, he, herror, hcause, hline, hsame⟩

/-- A script that reads a field that two maps share. -/
def ambiguousTree : FileTree where
  entries := [(["main.mrk"], .text ambiguousText)]

/-- The script is run as a file and as a text, and the tables are gone through in different orders. -/
theorem runFile_disagrees_ambiguous :
    ambiguousTree.reach "main.mrk" = .ok ["main.mrk"] ∧
    ambiguousTree.read ["main.mrk"] = .ok ambiguousText ∧
    ambiguousTree.Avoids "." ambiguousText ["main.mrk"] ∧
    (runFile ambiguousTree "main.mrk" (some ".") {} (.foremost "a")).2.console.output = #["one"] ∧
    (runSource ambiguousTree "." ambiguousText {} (.foremost "b")).2.console.output = #["two"] := by
  have hloads : ((Loader.whileReading
      { registry := Library.standard, files := ambiguousTree } ["main.mrk"]).ofSource
        ambiguousText).isOk := by decide +kernel
  have houtputs :
      (runFile ambiguousTree "main.mrk" (some ".") {} (.foremost "a")).2.console.output =
        #["one"] ∧
      (runSource ambiguousTree "." ambiguousText {} (.foremost "b")).2.console.output =
        #["two"] := by decide +kernel
  have havoids : ambiguousTree.Avoids "." ambiguousText ["main.mrk"] := by
    obtain ⟨program, hprogram⟩ := exists_of_isOk hloads
    exact Loader.avoids_of_ofSource hprogram
  exact ⟨by decide +kernel, by decide +kernel, havoids, houtputs⟩

end Scripting
