/-!
# Command lines

What the words after the program's name ask for. The program runs a script that is named directly or
after `run`, or starts an interactive session; it takes a few flags, each at most once. A word counts
as the name of a subcommand only when nothing stands before it. Requests for help and for the version
are taken as soon as they are read, and a defect is reported as soon as it is read.
-/

namespace Scripting.Shell

/-- What flags and words belong to: the program itself or one of its subcommands. -/
inductive Topic where
  | program
  | run
  | interactive
  | help
  deriving DecidableEq

/-- What a command line asks for. -/
inductive Command where
  | run (file : String) (base : Option String)
  | interactive
  | help (topic : Topic)
  | version
  deriving DecidableEq

/-- What has been read of a command line. -/
structure Given where
  file : Option String := none
  base : Option String := none
  verbose : Bool := false
  deriving DecidableEq

/-- What reading a flag leads to: reading on, or a command at once. -/
inductive Step where
  | given (given : Given)
  | command (command : Command)

namespace Topic

/-- Whether a script may be named. -/
def takesFile : Topic → Bool
  | program | run => true
  | interactive | help => false

/-- A flag by its letter; there is none for letters without a meaning, or when it was given before. -/
def flag? (topic : Topic) (given : Given) (letter : Char) : Option Step :=
  match letter with
  | 'v' => if given.verbose then none else some (.given { given with verbose := true })
  | 'h' => some (.command (.help topic))
  | 'V' => if topic = .program then some (.command .version) else none
  | _ => none

/-- Flags that stand together behind one dash. -/
def flags? (topic : Topic) (given : Given) : List Char → Option Step
  | [] => some (.given given)
  | letter :: letters =>
    match topic.flag? given letter with
    | some (.given given) => topic.flags? given letters
    | stop => stop

/-- The letter of a flag that is written out. -/
def letter? : String → Option Char
  | "--verbose" => some 'v'
  | "--help" => some 'h'
  | "--version" => some 'V'
  | _ => none

/-- What was given with a script named, if one may be named and none was. -/
def file? (topic : Topic) (given : Given) (name : String) : Option Given :=
  if topic.takesFile && given.file.isNone && !name.isEmpty then
    some { given with file := some name }
  else
    none

/-- What was given with a directory for imports, if it may be given and was not. -/
def base? (topic : Topic) (given : Given) (directory : String) : Option Given :=
  if topic = .run && given.base.isNone && !directory.isEmpty then
    some { given with base := some directory }
  else
    none

/-- The command of a line that has been read to its end. -/
def finish? (topic : Topic) (given : Given) : Option Command :=
  match topic, given.file with
  | .program, some file | .run, some file => some (.run file given.base)
  | .program, none | .interactive, _ => some .interactive
  | .run, none | .help, _ => none

/-- Words that are names, whatever they look like. -/
def names? (topic : Topic) (given : Given) : List String → Option Command
  | [] => topic.finish? given
  | word :: words =>
    match topic.file? given word with
    | some given => topic.names? given words
    | none => none

end Topic

/-- Whether a word looks like a flag. A lone dash does not. -/
def isFlag (word : String) : Bool :=
  word.toList.head? == some '-' && word != "-"

/-- The mark between the option for the directory and its value, when they are one word. -/
def baseMark : String := "--base-dir="

/-- The words of a topic, subcommands apart. -/
def Topic.words? (topic : Topic) (given : Given) : List String → Option Command
  | [] => topic.finish? given
  | "--" :: words => topic.names? given words
  | "--base-dir" :: directory :: words =>
    if isFlag directory then none
    else
      match topic.base? given directory with
      | some given => topic.words? given words
      | none => none
  | word :: words =>
    if word.startsWith baseMark then
      match topic.base? given (word.drop baseMark.length).toString with
      | some given => topic.words? given words
      | none => none
    else if isFlag word then
      let step :=
        match word.toList with
        | '-' :: '-' :: _ => (Topic.letter? word).bind (topic.flag? given)
        | _ :: letters => topic.flags? given letters
        | [] => none
      match step with
      | some (.given given) => topic.words? given words
      | some (.command command) => some command
      | none => none
    else
      match topic.file? given word with
      | some given => topic.words? given words
      | none => none

/-- What a command line asks for, if it is well-formed. -/
def Command.ofArgs? : List String → Option Command
  | "run" :: words => Topic.run.words? {} words
  | "repl" :: words => Topic.interactive.words? {} words
  | ["help"] => some (.help .program)
  | ["help", "run"] => some (.help .run)
  | ["help", "repl"] => some (.help .interactive)
  | ["help", "help"] => some (.help .help)
  | "help" :: _ => none
  | words => Topic.program.words? {} words

end Scripting.Shell
