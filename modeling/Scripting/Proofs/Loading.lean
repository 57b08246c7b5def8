import Scripting.Proofs.Refusals

/-!
# Loading, step by step

Reading a text leads to the files that it imports, each of which is read in the same way. This
module takes one step of that recursion apart. `Loader.readBy` is the step itself, with the reading
of the imported files left open, and `Loader.Resolved` lists what an import can come to. A step asks
for no other files than those that are opened by the imports of the text (`Reading.Opens`). Each of
them puts one more place in progress, so that the recursion has exactly one solution
(`eq_ofSource_iff`).
-/

namespace Scripting

theorem bind_congr_of_ok {ε α β : Type} {x : Except ε α} {f g : α → Except ε β}
    (h : ∀ a, x = .ok a → f a = g a) : x >>= f = x >>= g := by
  cases x with
  | error e => rfl
  | ok a => exact h a rfl

/-- An error belongs to the innermost file that it comes out of. -/
theorem Error.file_inFile (e : Error) (path source : String) :
    (e.inFile path source).file = some (e.file.getD path) := by
  unfold inFile
  cases h : e.file with
  | none => rfl
  | some file => exact h

/-- An error that belongs to a file keeps to it. -/
theorem Error.inFile_of_file {e : Error} (h : e.file ≠ none) (path source : String) :
    e.inFile path source = e := by
  obtain ⟨file, hfile⟩ := Option.ne_none_iff_exists'.mp h
  rw [inFile, hfile]

/-- A text together with the loader that reads it. -/
structure Reading where
  loader : Loader
  source : String

namespace Loader

/-! ## One step -/

/-- What the import of a file stands for, given what its reading comes to. -/
def importOf (target : Token) (file : SourceFile) (loaded : Except Error Program) :
    Except Error Form := do
  let program ← loaded.mapError (·.inFile file.path file.source)
  let exported := program.statements.filter (·.exported)
  if exported.isEmpty then
    .error (.locate (.noExports target.lexeme) target.span)
  else
    return .useFile file { statements := exported, imports := program.imports }

/-- What an import stands for, where `read` reads the imported file. -/
def resolveBy (read : Reading → Except Error Program) (loader : Loader) (target : Token) :
    Except Error Form :=
  match loader.registry.resolve? target.lexeme, loader.fileAt? target.lexeme with
  | some module, none => .ok (.useModule module)
  | some _, some _ => .error (.locate (.ambiguousImport target.lexeme) target.span)
  | none, none => .error (.locate (.moduleNotFound target.lexeme) target.span)
  | none, some place =>
    if loader.inProgress.contains place then
      .error (.locate (.circularImport target.lexeme) target.span)
    else
      let path := loader.path target.lexeme
      match loader.files.read place with
      | .error fault =>
        .error (.locate (.io ("cannot read \"" ++ path ++ "\": " ++ fault.message)) target.span)
      | .ok source =>
        importOf target { path, source } (read ⟨loader.forImport { path, source } place, source⟩)

/-- The program that a text writes, where `read` reads the imported files. -/
def readBy (read : Reading → Except Error Program) (reading : Reading) : Except Error Program := do
  Program.ofTokens (resolveBy read reading.loader) reading.loader.file
    (← Token.scan reading.source)

/-- The program of a text, as a function of both the text and its loader. -/
def load (reading : Reading) : Except Error Program :=
  reading.loader.ofSource reading.source

theorem resolve_eq (loader : Loader) : loader.resolve = resolveBy load loader := by
  funext target
  rw [resolve, resolveBy]
  cases hmodule : loader.registry.resolve? target.lexeme with
  | some module => cases hfound : loader.fileAt? target.lexeme <;> rfl
  | none =>
    cases hfound : loader.fileAt? target.lexeme with
    | none => rfl
    | some place =>
      dsimp only
      by_cases hplace : place ∈ loader.inProgress
      · rw [dif_pos hplace, if_pos (List.contains_iff_mem.mpr hplace)]
      · rw [dif_neg hplace, if_neg (mt List.contains_iff_mem.mp hplace)]
        split
        · next hread => rw [hread]
        · next source hread =>
          rw [hread]
          dsimp only [load, ofSource]
          cases Token.scan source <;> rfl

theorem load_eq (reading : Reading) : load reading = readBy load reading := by
  unfold load readBy ofSource ofTokens
  rw [resolve_eq]
  rfl

/-- The import of the name opens a file: no module of the host has the name, the file lies at a
place that is not in progress, and it can be read. -/
structure Opens (loader : Loader) (name : String) (file : SourceFile) (place : Place) : Prop where
  noModule : loader.registry.resolve? name = none
  found : loader.fileAt? name = some place
  idle : place ∉ loader.inProgress
  path : file.path = loader.path name
  read : loader.files.read place = .ok file.source

theorem Opens.remaining_lt {loader : Loader} {name : String} {file : SourceFile} {place : Place}
    (h : loader.Opens name file place) :
    (loader.forImport file place).remaining < loader.remaining :=
  remaining_forImport_lt file h.idle h.read

/-- The file is the one at its path. -/
theorem Opens.readPath {loader : Loader} {name : String} {file : SourceFile} {place : Place}
    (h : loader.Opens name file place) : loader.files.readPath file.path = .ok file.source := by
  rw [h.path, FileTree.readPath, reach_of_fileAt? h.found]
  exact h.read

theorem Opens.nodup {loader : Loader} {name : String} {file : SourceFile} {place : Place}
    (h : loader.Opens name file place) (hstart : loader.inProgress.Nodup) :
    (loader.forImport file place).inProgress.Nodup :=
  List.nodup_cons.mpr ⟨h.idle, hstart⟩

/-- Resolving an import asks for nothing but the file that it opens. -/
theorem resolveBy_congr {read other : Reading → Except Error Program} {loader : Loader}
    {target : Token} (h : ∀ file place, loader.Opens target.lexeme file place →
      read ⟨loader.forImport file place, file.source⟩ =
        other ⟨loader.forImport file place, file.source⟩) :
    resolveBy read loader target = resolveBy other loader target := by
  unfold resolveBy
  cases hmodule : loader.registry.resolve? target.lexeme with
  | some module => cases loader.fileAt? target.lexeme <;> rfl
  | none =>
    cases hfound : loader.fileAt? target.lexeme with
    | none => rfl
    | some place =>
      dsimp only
      split
      · rfl
      · next hplace =>
        cases hread : loader.files.read place with
        | error fault => rfl
        | ok source =>
          have hsame := h { path := loader.path target.lexeme, source } place
            ⟨hmodule, hfound, mt List.contains_iff_mem.mpr hplace, rfl, hread⟩
          exact congrArg (importOf target { path := loader.path target.lexeme, source }) hsame

/-- What an import can come to. -/
inductive Resolved (loader : Loader) (target : Token) : Except Error Form → Prop
  | module {module : Module} (hmodule : loader.registry.resolve? target.lexeme = some module)
      (hfound : loader.fileAt? target.lexeme = none) :
      Resolved loader target (.ok (.useModule module))
  | ambiguous {place : Place} (hmodule : loader.registry.resolve? target.lexeme ≠ none)
      (hfound : loader.fileAt? target.lexeme = some place) :
      Resolved loader target (.error (.locate (.ambiguousImport target.lexeme) target.span))
  | missing (hmodule : loader.registry.resolve? target.lexeme = none)
      (hfound : loader.fileAt? target.lexeme = none) :
      Resolved loader target (.error (.locate (.moduleNotFound target.lexeme) target.span))
  | circular {place : Place} (hfound : loader.fileAt? target.lexeme = some place)
      (hplace : place ∈ loader.inProgress) :
      Resolved loader target (.error (.locate (.circularImport target.lexeme) target.span))
  | unreadable {place : Place} {fault : FileFault}
      (hfound : loader.fileAt? target.lexeme = some place)
      (hread : loader.files.read place = .error fault) :
      Resolved loader target (.error (.locate (.io ("cannot read \"" ++
        loader.path target.lexeme ++ "\": " ++ fault.message)) target.span))
  | refused {file : SourceFile} {place : Place} {e : Error}
      (hopens : loader.Opens target.lexeme file place)
      (hload : (loader.forImport file place).ofSource file.source = .error e) :
      Resolved loader target (.error (e.inFile file.path file.source))
  | empty {file : SourceFile} {place : Place} {program : Program}
      (hopens : loader.Opens target.lexeme file place)
      (hload : (loader.forImport file place).ofSource file.source = .ok program)
      (hnone : program.statements.filter (·.exported) = []) :
      Resolved loader target (.error (.locate (.noExports target.lexeme) target.span))
  | file {file : SourceFile} {place : Place} {program : Program}
      (hopens : loader.Opens target.lexeme file place)
      (hload : (loader.forImport file place).ofSource file.source = .ok program)
      (hsome : program.statements.filter (·.exported) ≠ []) :
      Resolved loader target (.ok (.useFile file
        { program with statements := program.statements.filter (·.exported) }))

theorem resolved_resolve (loader : Loader) (target : Token) :
    loader.Resolved target (loader.resolve target) := by
  rw [resolve_eq, resolveBy]
  cases hmodule : loader.registry.resolve? target.lexeme with
  | some module =>
    cases hfound : loader.fileAt? target.lexeme with
    | none => exact .module hmodule hfound
    | some place => exact .ambiguous (hmodule ▸ Option.some_ne_none module) hfound
  | none =>
    cases hfound : loader.fileAt? target.lexeme with
    | none => exact .missing hmodule hfound
    | some place =>
      dsimp only
      split
      · next hplace => exact .circular hfound (List.contains_iff_mem.mp hplace)
      · next hplace =>
        cases hread : loader.files.read place with
        | error fault => exact .unreadable hfound hread
        | ok source =>
          have hopens : loader.Opens target.lexeme { path := loader.path target.lexeme, source }
              place :=
            ⟨hmodule, hfound, mt List.contains_iff_mem.mpr hplace, rfl, hread⟩
          dsimp only
          generalize hload : load _ = loaded
          cases loaded with
          | error e => exact .refused hopens hload
          | ok program =>
            show loader.Resolved target (ite _ _ _)
            split
            · next hnone => exact .empty hopens hload (List.isEmpty_iff.mp hnone)
            · next hsome => exact .file hopens hload (mt List.isEmpty_iff.mpr hsome)

end Loader

/-! ## The recursion -/

namespace Reading

open Loader (load readBy resolveBy)

/-- An import in the text opens the file at the place, which leads to another reading. Imports in
the bodies of functions count, and it does not matter which of them are exported. -/
inductive Opens (outer : Reading) (place : Place) : Reading → Prop
  | mk {tokens : List Token} {target : Token} {file : SourceFile}
      (hscan : Token.scan outer.source = .ok tokens) (htarget : Token.Imports tokens target)
      (hopens : outer.loader.Opens target.lexeme file place) :
      Opens outer place ⟨outer.loader.forImport file place, file.source⟩

theorem Opens.remaining_lt {outer inner : Reading} {place : Place} (h : outer.Opens place inner) :
    inner.loader.remaining < outer.loader.remaining := by
  cases h with
  | mk _ _ hopens => exact hopens.remaining_lt

theorem wellFounded_opens :
    WellFounded fun inner outer : Reading => ∃ place, outer.Opens place inner := by
  refine Subrelation.wf ?_
    (InvImage.wf (fun reading : Reading => reading.loader.remaining) Nat.lt_wfRel.wf)
  rintro inner outer ⟨place, h⟩
  exact h.remaining_lt

/-- Reading a text asks for nothing but the readings that its imports open. -/
theorem readBy_congr {read other : Reading → Except Error Program} {outer : Reading}
    (h : ∀ place inner, outer.Opens place inner → read inner = other inner) :
    readBy read outer = readBy other outer := by
  refine bind_congr_of_ok fun tokens hscan => Program.ofTokens_congr (fun target htarget => ?_) _
  exact Loader.resolveBy_congr fun file place hopens => h place _ (.mk hscan htarget hopens)

/-- The recursion through the imported files has one solution. -/
theorem eq_load_iff {read : Reading → Except Error Program} :
    (∀ reading, read reading = readBy read reading) ↔ ∀ reading, read reading = load reading := by
  constructor
  · intro h reading
    induction reading using wellFounded_opens.induction with
    | _ outer ih =>
      rw [h, Loader.load_eq]
      exact readBy_congr fun place inner hopens => ih inner ⟨place, hopens⟩
  · intro h reading
    rw [funext h]
    exact Loader.load_eq reading

end Reading

end Scripting
