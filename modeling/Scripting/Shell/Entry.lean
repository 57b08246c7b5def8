import Scripting.Session
import Scripting.Text.Blank

/-!
# Interactive sessions

Lines are gathered until all braces that they open are closed, and then run as one entry on the state
that the entries before have left behind. A few words have a meaning of their own when no entry is
unfinished. Scripts read their input from the same lines. A session ends at a word of its own, at the
end of its input, or where its input breaks off.
-/

namespace Scripting.Shell

/-- How many braces a text opens without closing them. Braces between quotes do not count. -/
def openBraces (quote : Option Char) : List Char → Int
  | [] => 0
  | c :: rest =>
    match quote with
    | some q => openBraces (if c = q then none else some q) rest
    | none =>
      if Token.isQuote c then openBraces (some c) rest
      else if c = '\x7b' then openBraces none rest + 1
      else if c = '\x7d' then openBraces none rest - 1
      else openBraces none rest

/-- An interactive session: its state, the lines of the entry that is unfinished, and the errors
reported so far. What it writes goes to the console of the state. -/
structure Interactive where
  state : State
  unfinished : String := ""
  reports : Array String := #[]

/-- The words that have a meaning of their own. -/
inductive Directive where
  | nothing
  | leave
  | help
  | clear
  deriving DecidableEq

namespace Directive

/-- The directive that a line is, if it is one. -/
def ofLine? (line : String) : Option Directive :=
  match Text.trim line with
  | "" => some nothing
  | "exit" | "quit" => some leave
  | "help" => some help
  | "clear" => some clear
  | _ => none

end Directive

/-- What the session says first. -/
def greeting : List String :=
  ["Murk 0.1.0", "Type exit to exit, help for help", ""]

/-- What the session says last. -/
def farewell : String := "Goodbye!"

/-- What the session says when asked for help. -/
def guidance : List String :=
  ["REPL Commands:",
    "  exit, quit   Exit the REPL",
    "  clear        Forget all variables and functions",
    "  help         Show this help",
    "",
    "Language Examples:",
    "  import \"IO\"",
    "  var name = \"murk\"",
    "  function greet(who: String) \x7b return who \x7d",
    "  var message = greet(name)",
    "  IO.printf(\"hello \x7b\x7d\", message)"]

namespace Interactive

/-- The session after it has written some lines. -/
def say (session : Interactive) (lines : List String) : Interactive :=
  { session with
    state := { session.state with console := lines.foldl Console.write session.state.console } }

/-- The session after an entry has been run. An error is reported and the session goes on. -/
def enter (files : FileTree) (session : Interactive) (source : String) : Interactive :=
  let loader : Loader := { registry := Library.standard, files }
  let (result, state) := session.state.executeLoaded (loader.ofSource source)
  match result with
  | .ok _ => { session with state }
  | .error error =>
    { session with state, reports := session.reports.push (error.withSource source).text }

/-- The session after a line of an entry. -/
def gather (files : FileTree) (session : Interactive) (line : String) : Interactive :=
  let source := session.unfinished ++ line ++ "\n"
  if 0 < openBraces none source.toList then
    { session with unfinished := source }
  else
    { session with unfinished := "" }.enter files source

/-- The session after a line, and whether it goes on. -/
def accept (files : FileTree) (session : Interactive) (line : String) : Interactive × Bool :=
  let directive := if session.unfinished.isEmpty then Directive.ofLine? line else none
  match directive with
  | some .nothing => (session, true)
  | some .leave => (session.say [farewell], false)
  | some .help => (session.say guidance, true)
  | some .clear =>
    ({ session with state := session.state.clear }.say ["State cleared."], true)
  | none => (session.gather files line, true)

/-- The session at the end of its input. -/
def close (session : Interactive) : Interactive :=
  let console := session.state.console
  if console.exhausted = .breaksOff then
    { session with state := { session.state with console := { console with brokenOff := true } } }
  else
    session.say [farewell]

/-- The session to its end, when there are at most `count` lines to be read. An entry in which the
input breaks off is not reported on. -/
def finish (files : FileTree) (session : Interactive) : (count : Nat) → Interactive
  | 0 => session.close
  | count + 1 =>
    match session.state.console.input with
    | [] => session.close
    | line :: rest =>
      let console := { session.state.console with input := rest }
      let (after, goesOn) :=
        { session with state := { session.state with console } }.accept files line
      if after.state.console.brokenOff then { after with reports := session.reports }
      else if goesOn then after.finish files count
      else after

end Interactive

/-- A whole interactive session on a console. -/
def interact (files : FileTree) (console : Console) (order : Order := .rotating) :
    Interactive :=
  let start : Interactive := { state := { console, scopes := { order } } }
  (start.say greeting).finish files console.input.length

end Scripting.Shell
