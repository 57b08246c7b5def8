import Scripting.Shell.Command
import Scripting.Shell.Entry
import Scripting.Shell.InputLine

/-!
# Whole runs of the program

What the program writes and how it ends, as a function of its command line, the files, its input and
the order in which the platform goes through tables.
-/

namespace Scripting.Shell

/-- What a run of the program leaves behind. -/
structure Transcript where
  code : Nat
  stdout : String
  stderr : String
  deriving DecidableEq

/-- Lines, each with its ending. -/
def unlines (lines : List String) : String :=
  String.join (lines.map (· ++ "\n"))

/-- The line about the version. -/
def versionLine : String := "murk 0.1.0"

/-- What the program says about a topic. -/
def Topic.text : Topic → List String
  | .program =>
    ["Run Murk scripts",
      "",
      "Usage: murk [OPTIONS] [FILE]",
      "       murk <COMMAND>",
      "",
      "Commands:",
      "  run   Execute a Murk file",
      "  repl  Start interactive REPL",
      "  help  Print this message or the help of the given subcommand(s)",
      "",
      "Arguments:",
      "  [FILE]  Script to run, shorthand for `murk run <FILE>`",
      "",
      "Options:",
      "  -v, --verbose  Log interpreter activity to stderr",
      "  -h, --help     Print help",
      "  -V, --version  Print version"]
  | .run =>
    ["Execute a Murk file",
      "",
      "Usage: murk run [OPTIONS] <FILE>",
      "",
      "Arguments:",
      "  <FILE>  ",
      "",
      "Options:",
      "      --base-dir <DIR>  Directory file imports are resolved against (defaults to the file's directory)",
      "  -v, --verbose         Log interpreter activity to stderr",
      "  -h, --help            Print help"]
  | .interactive =>
    ["Start interactive REPL",
      "",
      "Usage: murk repl [OPTIONS]",
      "",
      "Options:",
      "  -v, --verbose  Log interpreter activity to stderr",
      "  -h, --help     Print help"]
  | .help =>
    ["Print this message or the help of the given subcommand(s)",
      "",
      "Usage: murk help [COMMAND]...",
      "",
      "Arguments:",
      "  [COMMAND]...  Print help for the subcommand(s)"]

/-- What the program says to a command line that it does not understand. -/
def usageReport : List String :=
  ["error: the arguments are not understood",
    "",
    "Usage: murk [OPTIONS] [FILE]",
    "       murk <COMMAND>",
    "",
    "For more information, try '--help'."]

/-- How the program ends when its input breaks off. -/
def brokenOffCode : Nat := 101

/-- What the program says when its input breaks off. -/
def brokenOffReport : String := "error: a character of the input is cut in two"

/-- The transcript of a script. -/
def runScript (files : FileTree) (path : String) (base? : Option String) (console : Console)
    (order : Order := .rotating) : Transcript :=
  let (result, state) := runFile files path base? console order
  let stdout := unlines state.console.output.toList
  if state.console.brokenOff then
    { code := brokenOffCode, stdout, stderr := unlines [brokenOffReport] }
  else
    match result with
    | .ok _ => { code := 0, stdout, stderr := "" }
    | .error error => { code := 1, stdout, stderr := error.text ++ "\n" }

/-- The transcript of an interactive session. -/
def runInteractive (files : FileTree) (console : Console) (order : Order := .rotating) :
    Transcript :=
  let session := interact files console order
  let stdout := unlines session.state.console.output.toList
  if session.state.console.brokenOff then
    { code := brokenOffCode, stdout
      stderr := unlines (session.reports.toList ++ [brokenOffReport]) }
  else
    { code := 0, stdout, stderr := unlines session.reports.toList }

/-- The transcript of the program. -/
def transcript (files : FileTree) (args : List String) (stdin : String)
    (order : Order := .rotating) : Transcript :=
  match Command.ofArgs? args with
  | none => { code := 2, stdout := "", stderr := unlines usageReport }
  | some .version => { code := 0, stdout := unlines [versionLine], stderr := "" }
  | some (.help topic) => { code := 0, stdout := unlines topic.text, stderr := "" }
  | some .interactive => runInteractive files (typedConsole stdin) order
  | some (.run path base?) => runScript files path base? (typedConsole stdin) order

end Scripting.Shell
