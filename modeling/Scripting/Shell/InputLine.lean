import Scripting.State.Console
import Scripting.Text.Cluster
import Scripting.Text.Lines

/-!
# Lines of input

An erasure in a line takes back the cluster that was typed last. What is taken back is counted in
bytes, and the count of a cluster is kept in one byte: of a cluster of 256 bytes or more only the
remainder is taken back, and what is left of it stays in the line. A line whose erasures would cut a
character in two cannot be read. A line without erasures is read as it is: `ofTyped?_of_notMem`.
-/

namespace Scripting.Shell

/-- The character that takes back the cluster before it. -/
def erasure : Char := '\x08'

/-- What is left of a line, its last character first, when some bytes at its end are taken back. -/
def takeBack : Nat → List Char → Option (List Char)
  | 0, cs => some cs
  | _ + 1, [] => none
  | bytes + 1, c :: rest =>
    if c.utf8Size ≤ bytes + 1 then takeBack (bytes + 1 - c.utf8Size) rest else none

/-- A line while it is typed: its characters and the sizes of its clusters in bytes, the last of them
first. -/
structure Draft where
  characters : List Char := []
  sizes : List UInt8 := []
  deriving DecidableEq

namespace Draft

/-- The line after one more cluster, which may be an erasure. -/
def add? (draft : Draft) (cluster : List Char) : Option Draft :=
  if cluster = [erasure] then
    match draft.sizes with
    | [] => some draft
    | size :: sizes =>
      (takeBack size.toNat draft.characters).map fun characters => { characters, sizes }
  else
    some
      { characters := cluster.reverse ++ draft.characters
        sizes := UInt8.ofNat (String.ofList cluster).utf8ByteSize :: draft.sizes }

/-- Clusters that are no erasures are all kept. -/
theorem foldlM_add? (draft : Draft) (clusters : List (List Char))
    (h : ∀ cluster ∈ clusters, cluster ≠ [erasure]) :
    (clusters.foldlM add? draft).map characters =
      some (clusters.flatten.reverse ++ draft.characters) := by
  induction clusters generalizing draft with
  | nil => simp
  | cons cluster rest ih =>
    simp only [List.mem_cons, forall_eq_or_imp] at h
    simp [add?, h.1, ih _ h.2]

end Draft

namespace InputLine

/-- The line that is read when some text was typed, if it can be read. -/
def ofTyped? (typed : String) : Option String :=
  ((Text.clusters typed.toList).foldlM Draft.add? {}).map fun draft =>
    String.ofList draft.characters.reverse

/-- A line without erasures is read as it is. -/
theorem ofTyped?_of_notMem (typed : String) (h : erasure ∉ typed.toList) :
    ofTyped? typed = some typed := by
  have typedOnly : ∀ cluster ∈ Text.clusters typed.toList, cluster ≠ [erasure] := by
    rintro cluster member rfl
    apply h
    rw [← Text.flatten_clusters typed.toList]
    exact List.mem_flatten.mpr ⟨_, member, List.mem_singleton.mpr rfl⟩
  have kept := Draft.foldlM_add? {} _ typedOnly
  obtain ⟨draft, read, same⟩ := Option.map_eq_some_iff.mp kept
  simp [ofTyped?, read, same]

/-- The lines that are read when some lines were typed, up to the first that cannot be read, and what
happens after them. -/
def ofTypedLines : List String → List String × Exhausted
  | [] => ([], .givesBlank)
  | typed :: rest =>
    match ofTyped? typed with
    | none => ([], .breaksOff)
    | some line =>
      let (lines, exhausted) := ofTypedLines rest
      (line :: lines, exhausted)

end InputLine

/-- The console that reads its lines from a text. -/
def typedConsole (stdin : String) : Console :=
  let (input, exhausted) := InputLine.ofTypedLines (Text.lines stdin)
  { input, exhausted }

end Scripting.Shell
