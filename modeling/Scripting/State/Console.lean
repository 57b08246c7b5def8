/-!
# The console

What a run has written and asked for, and the lines that are still to be read. At its last line a
console refuses to read on, or gives empty lines, as a terminal does at its end, or breaks off,
because the line that comes next cannot be read.
-/

namespace Scripting

/-- What happens when a console has no more lines to read. -/
inductive Exhausted where
  | refuses
  | givesBlank
  | breaksOff
  deriving DecidableEq

/-- A console: the lines to be read, what was written and asked so far, in order, and whether reading
has broken off. -/
structure Console where
  input : List String := []
  exhausted : Exhausted := .refuses
  brokenOff : Bool := false
  output : Array String := #[]
  prompts : Array String := #[]

namespace Console

/-- The console after a line has been written. -/
def write (console : Console) (line : String) : Console :=
  { console with output := console.output.push line }

/-- The line read after a prompt, if there is one, and the console after the attempt. -/
def read (console : Console) (prompt : String) : Option String × Console :=
  let asked := { console with prompts := console.prompts.push prompt }
  match console.input with
  | line :: rest => (some line, { asked with input := rest })
  | [] =>
    match console.exhausted with
    | .refuses => (none, asked)
    | .givesBlank => (some "", asked)
    | .breaksOff => (none, { asked with brokenOff := true })

end Console

end Scripting
