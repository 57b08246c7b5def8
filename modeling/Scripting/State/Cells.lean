import Scripting.Value.Basic

/-!
# Result cells

A result cell receives the result of one call. Variables and records share a cell by its handle: all
of them see the result once it is there, and none of them before.
-/

namespace Scripting

/-- A handle of a result cell. -/
structure Cell where
  index : Nat
  deriving DecidableEq

/-- The result cells made so far; one whose call has not returned yet is empty. -/
structure Cells where
  contents : Array (Option Value) := #[]

namespace Cells

/-- The handle that the next cell will get. -/
def fresh (cells : Cells) : Cell :=
  ⟨cells.contents.size⟩

/-- The cells with one more, under the handle `fresh`. -/
def add (cells : Cells) (content : Option Value) : Cells :=
  ⟨cells.contents.push content⟩

/-- The result in a cell. -/
def get? (cells : Cells) (cell : Cell) : Option Value :=
  cells.contents[cell.index]?.join

/-- The cells with a result put into one of them. -/
def fill (cells : Cells) (cell : Cell) (value : Value) : Cells :=
  ⟨cells.contents.setIfInBounds cell.index (some value)⟩

@[simp] theorem get?_add_fresh (cells : Cells) (content : Option Value) :
    (cells.add content).get? cells.fresh = content := by
  simp [get?, add, fresh]

theorem get?_add_of_lt {cells : Cells} {cell : Cell} (h : cell.index < cells.contents.size)
    (content : Option Value) : (cells.add content).get? cell = cells.get? cell := by
  have hne : cell.index ≠ cells.contents.size := by omega
  simp [get?, add, Array.getElem?_push, hne]

theorem get?_fill_self {cells : Cells} {cell : Cell} (h : cell.index < cells.contents.size)
    (value : Value) : (cells.fill cell value).get? cell = some value := by
  simp [get?, fill, h]

theorem get?_fill_of_ne {cells : Cells} {cell other : Cell} (h : other ≠ cell) (value : Value) :
    (cells.fill cell value).get? other = cells.get? other := by
  have hne : cell.index ≠ other.index := fun heq => h (by cases cell; cases other; simp_all)
  simp [get?, fill, Array.getElem?_setIfInBounds_ne hne]

end Cells

end Scripting
