import Scripting.Text.Lines
import Scripting.Value.Kind

/-!
# Errors

An error is a cause, with the place it points at, the file it arose in and the source line it
quotes, as far as these are known. The cause is fixed when the error is raised; the rest is filled
in on the way out, and what is filled in once stays: the innermost place, file and line win.
-/

namespace Scripting

/-- Why a text is refused or a run fails. -/
inductive Cause where
  | unexpectedCharacter (c : Char)
  | unterminatedString
  | invalidIdentifier (word : String)
  | unexpectedToken (token : String)
  | expectedToken (expected found : String)
  | expectedString (found : String)
  | expectedValue (found : String)
  | invalidArgument (found : String)
  | invalidParameter (found : String)
  | unterminatedArguments
  | unknownType (name : String)
  | reservedWord (word : String)
  | nestedFunction (enclosing : String)
  | returnOutsideFunction
  | invalidExport (found : String)
  | moduleNotFound (name : String)
  | ambiguousImport (name : String)
  | circularImport (name : String)
  | noExports (name : String)
  | io (message : String)
  | notFound (name : String)
  | undefinedVariable (name : String)
  | undefinedFunction (name : String)
  | undefinedModule (name : String)
  | alreadyDeclared (name : String)
  | functionAlreadyDeclared (name : String)
  | typeMismatch (name : String) (expected found : ValueType)
  | argumentType (function : String) (index : Nat) (expected found : ValueType)
  | wrongArity (function : String) (expected : String) (found : Nat)
  | missingExport (module field : String)
  | notCallable (module field : String)
  | notAMap (name : String)
  | unresolvedCall (name : String)
  | noReturnValue (name : String)
  | stackOverflow
  | runtime (message : String)
  deriving DecidableEq, Inhabited

namespace Cause

/-- A word between double quotes. -/
def quoted (word : String) : String := "\"" ++ word ++ "\""

/-- The wording of a cause. -/
def message : Cause → String
  | unexpectedCharacter c => "unexpected token " ++ quoted c.toString
  | unterminatedString => "unterminated string"
  | invalidIdentifier word => "invalid identifier " ++ quoted word
  | unexpectedToken token => "unexpected token " ++ quoted token
  | expectedToken expected found => "expected " ++ expected ++ ", got " ++ quoted found ++ " instead"
  | expectedString found =>
    "expected string after \"import\" keyword, got " ++ quoted found ++ " instead"
  | expectedValue found =>
    "expected a valid value after \"=\", got " ++ quoted found ++ " instead"
  | invalidArgument found => "expected a valid argument, got " ++ quoted found ++ " instead"
  | invalidParameter found => "expected a parameter name, got " ++ quoted found ++ " instead"
  | unterminatedArguments => "argument list is missing a closing \")\""
  | unknownType name => "unknown type " ++ quoted name
  | reservedWord word => quoted word ++ " is a reserved word"
  | nestedFunction enclosing => "cannot declare a function inside function " ++ quoted enclosing
  | returnOutsideFunction => "cannot return outside a function"
  | invalidExport found => "only imports and functions can be exported, got " ++ quoted found
  | moduleNotFound name => "could not find module " ++ quoted name
  | ambiguousImport name => quoted name ++ " names both a built-in module and a file"
  | circularImport name => "circular import of " ++ quoted name
  | noExports name => quoted name ++ " has no exported fields"
  | io message => message
  | notFound name => quoted name ++ " not found"
  | undefinedVariable name => "variable " ++ quoted name ++ " not found"
  | undefinedFunction name => "function " ++ quoted name ++ " not found"
  | undefinedModule name => "module/variable " ++ quoted name ++ " not found"
  | alreadyDeclared name => "variable " ++ quoted name ++ " already exists"
  | functionAlreadyDeclared name => "function " ++ quoted name ++ " already exists"
  | typeMismatch name expected found =>
    "variable " ++ quoted name ++ " is of type " ++ expected.text ++
      " and cannot be assigned a value of type " ++ found.text
  | argumentType function index expected found =>
    quoted function ++ " expects " ++ expected.text ++ " as argument " ++ toString index ++
      ", but got " ++ found.text ++ " instead"
  | wrongArity function expected found =>
    quoted function ++ " expects " ++ expected ++ " arguments, but got " ++ toString found ++
      " instead"
  | missingExport module field => quoted field ++ " not found in module " ++ quoted module
  | notCallable module field =>
    quoted field ++ " in module " ++ quoted module ++ " is not a function, remove the \"()\""
  | notAMap name => quoted name ++ " is not a map"
  | unresolvedCall name => quoted name ++ " is read before its call has returned"
  | noReturnValue name => quoted name ++ " did not return a value"
  | stackOverflow => "stack overflow"
  | runtime message => message

end Cause

/-- A cause with what is known about where it arose. -/
structure Error where
  cause : Cause
  span : Option Span := none
  file : Option String := none
  sourceLine : Option String := none
  deriving DecidableEq, Inhabited

namespace Error

/-- An error that points at a place. -/
def locate (cause : Cause) (span : Span) : Error :=
  { cause, span := some span }

/-- The error, pointing at the given place unless it already points somewhere. -/
def orAt (error : Error) (span : Span) : Error :=
  { error with span := error.span.or (some span) }

/-- The error, quoting the line of `source` that it points at. An error that quotes a line already,
or that belongs to a file, is left alone. -/
def withSource (error : Error) (source : String) : Error :=
  match error.file, error.sourceLine with
  | none, none =>
    { error with sourceLine := error.span.bind fun span => Text.line? source span.line }
  | _, _ => error

/-- The error, attributed to a file with the given source unless it already belongs to one. -/
def inFile (error : Error) (path source : String) : Error :=
  match error.file with
  | none => { error.withSource source with file := some path }
  | some _ => error

/-- The text of an error: its place, its cause, its file, and below them the quoted line with a mark
under the column. -/
def text (error : Error) : String :=
  let place :=
    match error.span with
    | some span => "[line " ++ span.text ++ "] "
    | none => ""
  let file :=
    match error.file with
    | some path => " (in " ++ path ++ ")"
    | none => ""
  let quotation :=
    match error.span, error.sourceLine with
    | some span, some line =>
      "\n  | " ++ line ++ "\n  | " ++ String.ofList (List.replicate (span.column - 1) ' ') ++ "^"
    | _, _ => ""
  place ++ "Error: " ++ error.cause.message ++ file ++ quotation

end Error

end Scripting
