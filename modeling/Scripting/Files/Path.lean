/-!
# Paths

A path is a text in which slashes separate names. Joining and cutting paths keeps what is written:
dots are neither added nor resolved.
-/

namespace Scripting.Path

/-- Whether a path starts at the root. -/
def isAbsolute (path : String) : Bool :=
  path.toList.head? == some '/'

/-- The path of `name` seen from the directory `base`. An absolute name stands for itself. -/
def join (base name : String) : String :=
  if isAbsolute name then name
  else if base.isEmpty || base.toList.getLast? == some '/' then base ++ name
  else base ++ "/" ++ name

/-- The names between the slashes of a list of characters, empty ones included. -/
def cutNames : List Char → List (List Char)
  | [] => [[]]
  | c :: rest =>
    if c = '/' then
      [] :: cutNames rest
    else
      match cutNames rest with
      | [] => [[c]]
      | name :: names => (c :: name) :: names

/-- The names between the slashes of a path. -/
def names (path : String) : List String :=
  (cutNames path.toList).map String.ofList

/-- Names with slashes between them. -/
def ofNames (names : List String) : String :=
  String.intercalate "/" names

/-- Names without those at the end that lead nowhere: empty ones and single dots. -/
def dropIdle (names : List String) : List String :=
  (names.reverse.dropWhile fun name => name = "" ∨ name = ".").reverse

/-- The directory that a path lies in: the path without its last name. The empty path and the root
have none. -/
def parent? (path : String) : Option String :=
  match names path with
  | [] => none
  | first :: rest =>
    let rest := dropIdle rest
    if rest.isEmpty then
      if first = "" then none else some ""
    else
      let kept := dropIdle rest.dropLast
      if first = "" ∧ kept.isEmpty then some "/" else some (ofNames (first :: kept))

/-- The directory in which a script with the given path looks for the files that it imports. -/
def directory (path : String) : String :=
  (parent? path).getD "."

end Scripting.Path
