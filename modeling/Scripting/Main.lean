import Scripting.Shell.Transcript

/-!
# The program

The outer layer of the command-line program: it takes a snapshot of the files that a script can
reach, shows what runs write, and supplies the lines that they read. A run is a function of the lines
it is given; when it asks for one line more, the line is read from standard input and the run is
computed anew, and only what has not been shown yet is shown.
-/

namespace Scripting.Shell

/-- The files that a text imports by name. -/
def importedFiles (source : String) : List String :=
  match Token.scan source with
  | .ok tokens =>
    (tokens.zip tokens.tail).filterMap fun (keyword, target) =>
      if keyword.keyword? = some .imports ∧ target.kind = .string ∧
          target.lexeme.endsWith fileSuffix then
        some target.lexeme
      else
        none
  | .error _ => []

/-- Whether a directory lies at a path. -/
def isDirectoryOnDisk (path : String) : IO Bool :=
  try (← IO.FS.realPath path).isDir catch _ => return false

/-- The tree with the directories that a path goes through, and what it leads to. -/
def takeEntry (tree : FileTree) (path : String) : IO FileTree := do
  let names := Path.names path
  let mut tree := tree
  for count in List.range names.length do
    let way := Path.ofNames (names.take (count + 1))
    if !way.isEmpty && (← isDirectoryOnDisk way) then
      tree := tree.insert way .directory
  try
    return tree.insert path (.ofBytes (← IO.FS.readBinFile path))
  catch _ =>
    return tree

/-- The tree with a file and all files that it imports, directly or through others. -/
partial def takeFile (tree : FileTree) (path base : String) : IO FileTree := do
  let tree ← takeEntry tree path
  match tree.readPath path with
  | .error _ => return tree
  | .ok source =>
    let takeImport (tree : FileTree) (name : String) : IO FileTree := do
      let target := Path.join base name
      if (tree.fileAt? target).isSome then return tree
      else takeFile tree target (Path.directory target)
    (importedFiles source).foldlM takeImport tree

/-- A tree that holds nothing yet. -/
def emptyTree : IO FileTree := do
  let names := Path.names (← IO.currentDir).toString
  return { workingDirectory := names.filter (· ≠ "") }

/-- The files that an entry of an interactive session can reach. -/
def takeImports (source : String) : IO FileTree := do
  let takeImport (tree : FileTree) (name : String) : IO FileTree :=
    let target := Path.join "." name
    takeFile tree target (Path.directory target)
  (importedFiles source).foldlM takeImport (← emptyTree)

/-- A line of standard input without its ending, or nothing at the end of the input. A line that cannot
be read is an error. -/
def readInput : IO (Option String) := do
  let line ← (← IO.getStdin).getLine
  match (Text.lines line).head? with
  | none => return none
  | some typed =>
    match InputLine.ofTyped? typed with
    | some line => return some line
    | none => throw (IO.userError brokenOffReport)

/-- Show lines of output. -/
def showLines (lines : List String) : IO Unit := do
  let stdout ← IO.getStdout
  lines.forM stdout.putStrLn
  stdout.flush

/-- Show a prompt when somebody is there to see it. -/
def showPrompt (prompt : String) : IO Unit := do
  if ← (← IO.getStdin).isTty then
    let stdout ← IO.getStdout
    stdout.putStr prompt
    stdout.flush

/-- The result of a run that is given the lines it asks for, when `shown` lines of its output have
been shown already. -/
partial def supply {α : Type} (run : Console → α × Console) (lines : List String) (shown : Nat) :
    IO α := do
  let (result, console) := run { input := lines }
  showLines (console.output.toList.drop shown)
  if console.prompts.size ≤ lines.length then
    return result
  else
    showPrompt (console.prompts.back?.getD "")
    match ← readInput with
    | some line => supply run (lines ++ [line]) console.output.size
    | none =>
      let (result, last) := run { input := lines, exhausted := .givesBlank }
      showLines (last.output.toList.drop console.output.size)
      return result

/-- Run a script and report its error, if it fails. -/
def hostScript (path : String) (base? : Option String) : IO UInt32 := do
  let files ← takeFile (← emptyTree) path (base?.getD (Path.directory path))
  let result ← supply (fun console =>
    let (result, state) := runFile files path base? console
    (result, state.console)) [] 0
  match result with
  | .ok _ => return 0
  | .error error =>
    IO.eprintln error.text
    return 1

/-- Go on with an interactive session. -/
partial def hostInteractive (session : Interactive) : IO Unit := do
  showPrompt (if session.unfinished.isEmpty then "murk> " else "...> ")
  match ← readInput with
  | none => showLines [farewell]
  | some line =>
    let files ← takeImports (session.unfinished ++ line)
    let (after, goesOn) ← supply (fun console =>
      let (after, goesOn) :=
        { session with state := { session.state with console }, reports := #[] }.accept files line
      ((after, goesOn), after.state.console)) [] 0
    after.reports.toList.forM fun report => IO.eprintln report
    if goesOn then hostInteractive after

end Scripting.Shell

open Scripting.Shell in
/-- Do what the command line asks for. -/
def main (args : List String) : IO UInt32 := do
  try
    match Command.ofArgs? args with
    | some (.run path base?) => hostScript path base?
    | some .interactive =>
      showLines greeting
      hostInteractive { state := {} }
      return 0
    | some (.help topic) =>
      showLines topic.text
      return 0
    | some .version =>
      showLines [versionLine]
      return 0
    | none =>
      usageReport.forM fun line => IO.eprintln line
      return 2
  catch error =>
    IO.eprintln error.toString
    return brokenOffCode.toUInt32
