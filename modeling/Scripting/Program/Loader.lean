import Scripting.Files.FileTree
import Scripting.Program.Parser
import Scripting.Token.Scan

/-!
# Loading programs

An import names a module of the host or, with the suffix `.mrk`, a file next to the importing one.
An imported file is read as a program of its own and contributes only its exported statements,
together with the modules that it imports. A file whose reading is in progress cannot be imported
from below; since every level of imports puts one more file in progress, loading comes to an end.
-/

namespace Scripting

/-- The suffix by which an import names a file. -/
def fileSuffix : String := ".mrk"

/-- What the reading of a program depends on: the modules of the host, the files, the directory in
which imported files are looked up, the files whose reading is in progress, innermost first, and the
imported file that is being read, if any. -/
structure Loader where
  registry : Registry
  files : FileTree
  base : String := "."
  inProgress : List Place := []
  file : Option SourceFile := none

namespace Loader

/-- The loader for the script with the given path: imports are looked up next to it, and it counts as
in progress. -/
def forScript (loader : Loader) (path : String) : Loader :=
  { loader with
    base := Path.directory path
    inProgress :=
      match loader.files.locate path with
      | .ok place => place :: loader.inProgress
      | .error _ => loader.inProgress }

/-- The loader for an imported file. -/
def forImport (loader : Loader) (file : SourceFile) (place : Place) : Loader :=
  { loader with
    base := Path.directory file.path
    inProgress := place :: loader.inProgress
    file := some file }

/-- The path of the file that an import names. -/
def path (loader : Loader) (name : String) : String :=
  Path.join loader.base name

/-- The place of the file that an import names, if it names one. -/
def fileAt? (loader : Loader) (name : String) : Option Place :=
  if name.endsWith fileSuffix then loader.files.fileAt? (loader.path name) else none

/-- The number of entries that are not in progress. -/
def remaining (loader : Loader) : Nat :=
  (loader.files.entries.map Prod.fst).countP (· ∉ loader.inProgress)

theorem countP_notMem_cons_lt {α : Type} [BEq α] [LawfulBEq α] {a : α} {done items : List α}
    (hnew : a ∉ done) (hmem : a ∈ items) :
    items.countP (· ∉ a :: done) < items.countP (· ∉ done) := by
  induction items with
  | nil => cases hmem
  | cons item items ih =>
    have hmono : items.countP (· ∉ a :: done) ≤ items.countP (· ∉ done) :=
      List.countP_mono_left fun x _ hx => by simp_all
    rw [List.countP_cons, List.countP_cons]
    by_cases hitem : item = a
    · subst hitem
      simpa [hnew] using Nat.lt_succ_of_le hmono
    · have hlt := ih ((List.mem_cons.mp hmem).resolve_left (Ne.symm hitem))
      by_cases hdone : item ∈ done
      · simpa [hitem, hdone] using hlt
      · simpa [hitem, hdone] using hlt

theorem remaining_forImport_lt {loader : Loader} {place : Place} {source : String}
    (file : SourceFile) (hnew : place ∉ loader.inProgress) (hread : loader.files.read place = .ok source) :
    (loader.forImport file place).remaining < loader.remaining := by
  unfold FileTree.read FileTree.entry? at hread
  cases hfind : loader.files.entries.find? (·.1 = place) with
  | none =>
    rw [hfind] at hread
    cases hread
  | some pair =>
    have hplace : pair.1 = place := by simpa using List.find?_some hfind
    have hmem := List.mem_map_of_mem (f := Prod.fst) (List.mem_of_find?_eq_some hfind)
    rw [hplace] at hmem
    exact countP_notMem_cons_lt hnew hmem

/-- What an import stands for. -/
def resolve (loader : Loader) (target : Token) : Except Error Form :=
  let name := target.lexeme
  match loader.registry.resolve? name, loader.fileAt? name with
  | some module, none => .ok (.useModule module)
  | some _, some _ => .error (.locate (.ambiguousImport name) target.span)
  | none, none => .error (.locate (.moduleNotFound name) target.span)
  | none, some place =>
    if hnew : place ∈ loader.inProgress then
      .error (.locate (.circularImport name) target.span)
    else
      let path := loader.path name
      match hread : loader.files.read place with
      | .error fault =>
        .error (.locate (.io ("cannot read \"" ++ path ++ "\": " ++ fault.message)) target.span)
      | .ok source => do
        let file : SourceFile := { path, source }
        have := remaining_forImport_lt file hnew hread
        let tokens ← (Token.scan source).mapError (·.inFile path source)
        let program ←
          (Program.ofTokens (fun inner => (loader.forImport file place).resolve inner) (some file)
            tokens).mapError (·.inFile path source)
        let exported := program.statements.filter (·.exported)
        if exported.isEmpty then
          .error (.locate (.noExports name) target.span)
        else
          return .useFile file { statements := exported, imports := program.imports }
termination_by loader.remaining
decreasing_by assumption

/-- The program that a list of tokens writes. -/
def ofTokens (loader : Loader) (tokens : List Token) : Except Error Program :=
  Program.ofTokens loader.resolve loader.file tokens

/-- The program that a text writes. -/
def ofSource (loader : Loader) (source : String) : Except Error Program := do
  loader.ofTokens (← Token.scan source)

end Loader

end Scripting
