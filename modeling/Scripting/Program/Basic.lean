import Scripting.Module.ImportTable

/-!
# Programs

A program is a list of statements with the table of the modules that it imports. The bodies of
functions and the files that are imported carry programs of their own.
-/

namespace Scripting

/-- A call of a declared function. -/
structure Call where
  name : String
  args : List Token
  span : Span

/-- A field of a module or of a map, with arguments when it is called. -/
structure Access where
  module : String
  field : String
  args : Option (List Token)
  span : Span

namespace Access

/-- The two names with a dot between them. -/
def qualifiedName (access : Access) : String :=
  access.module ++ "." ++ access.field

end Access

/-- The right-hand side of a declaration, an assignment or a return. -/
inductive Expr where
  | literal (token : Token)
  | reference (token : Token)
  | call (call : Call)
  | access (access : Access)

namespace Expr

/-- The place of an expression. -/
def span : Expr → Span
  | literal token | reference token => token.span
  | call c => c.span
  | access a => a.span

/-- Whether the value of an expression comes from a call. -/
def isCall : Expr → Bool
  | call _ => true
  | access a => a.args.isSome
  | _ => false

end Expr

/-- What an assignment changes. -/
inductive Target where
  | var (name : String)
  | field (map field : String)

/-- A parameter of a function, with the type it asks for, if any. -/
structure Param where
  name : String
  type : Option ValueType := none
  deriving DecidableEq

/-- A file that is imported, kept so that errors can quote it. -/
structure SourceFile where
  path : String
  source : String
  deriving DecidableEq

mutual

/-- What a statement does. -/
inductive Form where
  | function (declaration : Declaration)
  | call (call : Call)
  | access (access : Access)
  | declare (name : String) (value : Expr)
  | assign (target : Target) (value : Expr)
  | returns (value : Expr)
  | useModule (module : Module)
  | useFile (file : SourceFile) (program : Program)

/-- A statement: what it does, where it stands, the function whose body it belongs to, and whether it
is exported. -/
structure Statement where
  form : Form
  span : Span
  scope : Option String
  exported : Bool

/-- A list of statements and the modules that they import. -/
structure Program where
  statements : List Statement
  imports : ImportTable

/-- A function: its name and the place of that name, its parameters, its body, and the imported file
it was declared in, if any. -/
structure Declaration where
  name : String
  params : List Param
  body : Program
  span : Span
  file : Option SourceFile

end

namespace Declaration

/-- The number of parameters. -/
def arity (declaration : Declaration) : Nat :=
  declaration.params.length

/-- An error that arose in the body of a function, attributed to the imported file that declares the
function, if it is declared in one. -/
def claimError (declaration : Declaration) (error : Error) : Error :=
  match declaration.file with
  | some file => error.inFile file.path file.source
  | none => error

end Declaration

namespace Form

/-- The module that a statement imports. -/
def module? : Form → Option Module
  | useModule module => some module
  | _ => none

end Form

end Scripting
