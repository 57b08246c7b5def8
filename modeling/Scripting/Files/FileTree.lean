import Scripting.Files.Path

/-!
# File trees

A snapshot of the files that a script can reach. A file is known by its place, the list of names that
leads to it from the root; a path leads to a place by way of the directories that it goes through,
each of which has to exist. Names and paths have a greatest length, counted in bytes.
-/

namespace Scripting

/-- The place of a file or directory: the names on the way from the root. -/
abbrev Place := List String

/-- What stands at a place. -/
inductive Entry where
  | text (source : String)
  | bytes
  | directory
  deriving DecidableEq

/-- The entry of a file with the given contents. -/
def Entry.ofBytes (contents : ByteArray) : Entry :=
  match String.fromUTF8? contents with
  | some source => .text source
  | none => .bytes

/-- Why a file cannot be read. -/
inductive FileFault where
  | missing
  | throughFile
  | isDirectory
  | tooLong
  | zeroByte
  | notText
  deriving DecidableEq

namespace FileFault

/-- The wording of a fault. -/
def message : FileFault → String
  | missing => "No such file or directory (os error 2)"
  | throughFile => "Not a directory (os error 20)"
  | isDirectory => "Is a directory (os error 21)"
  | tooLong => "File name too long (os error 36)"
  | zeroByte => "file name contained an unexpected NUL byte"
  | notText => "stream did not contain valid UTF-8"

end FileFault

/-- Files and directories, and the directory from which relative paths start. Directories on the way
to an entry need no entry of their own. -/
structure FileTree where
  workingDirectory : Place := []
  entries : List (Place × Entry) := []

namespace FileTree

/-- The place that some names lead to from another place, when nothing stands in the way. -/
def placeOf (place : Place) : List String → Place
  | [] => place
  | name :: rest =>
    if name = "" ∨ name = "." then placeOf place rest
    else if name = ".." then placeOf place.dropLast rest
    else placeOf (place ++ [name]) rest

/-- The tree with one more entry, at the place of a path. -/
def insert (tree : FileTree) (path : String) (entry : Entry) : FileTree :=
  let start := if Path.isAbsolute path then [] else tree.workingDirectory
  { tree with entries := (placeOf start (Path.names path), entry) :: tree.entries }

/-- Whether a directory lies at a place. -/
def isDirectory (tree : FileTree) (place : Place) : Bool :=
  place.isPrefixOf tree.workingDirectory ||
    tree.entries.any fun (other, entry) =>
      place.isPrefixOf other && (place.length < other.length || entry = .directory)

/-- The entry of a place. -/
def entry? (tree : FileTree) (place : Place) : Option Entry :=
  (tree.entries.find? (·.1 = place)).map Prod.snd

/-- The greatest length of a name. -/
def nameLimit : Nat := 255

/-- The greatest length of a path that is used to reach a file. -/
def pathLimit : Nat := 4095

/-- The place to which a list of names leads from another place. -/
def walk (tree : FileTree) (place : Place) : List String → Except FileFault Place
  | [] =>
    if tree.isDirectory place || (tree.entry? place).isSome then .ok place else .error .missing
  | name :: rest =>
    if tree.isDirectory place then
      if name = "" ∨ name = "." then tree.walk place rest
      else if name = ".." then tree.walk place.dropLast rest
      else if nameLimit < name.utf8ByteSize then .error .tooLong
      else tree.walk (place ++ [name]) rest
    else if (tree.entry? place).isSome then .error .throughFile
    else .error .missing

/-- The place to which a path leads, however long it is. -/
def locate (tree : FileTree) (path : String) : Except FileFault Place :=
  if path.toList.contains '\x00' then .error .zeroByte
  else if path.isEmpty then .error .missing
  else tree.walk (if Path.isAbsolute path then [] else tree.workingDirectory) (Path.names path)

/-- The place that can be reached by a path. -/
def reach (tree : FileTree) (path : String) : Except FileFault Place :=
  if pathLimit < path.utf8ByteSize && !path.toList.contains '\x00' then .error .tooLong
  else tree.locate path

/-- Whether a file, of whatever contents, lies at a place. -/
def isFile (tree : FileTree) (place : Place) : Bool :=
  match tree.entry? place with
  | some (.text _) | some .bytes => true
  | _ => false

/-- The place of the file to which a path leads, if it leads to one. -/
def fileAt? (tree : FileTree) (path : String) : Option Place :=
  match tree.reach path with
  | .ok place => if tree.isFile place then some place else none
  | .error _ => none

/-- The text at a place. -/
def read (tree : FileTree) (place : Place) : Except FileFault String :=
  match tree.entry? place with
  | some (.text source) => .ok source
  | some .bytes => .error .notText
  | some .directory => .error .isDirectory
  | none => .error (if tree.isDirectory place then .isDirectory else .missing)

/-- The text of the file to which a path leads. -/
def readPath (tree : FileTree) (path : String) : Except FileFault String := do
  tree.read (← tree.reach path)

end FileTree

end Scripting
