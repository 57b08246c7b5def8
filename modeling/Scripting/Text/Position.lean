/-!
# Places in a text

A `Position` walks through a text one character at a time and keeps three counters in step: the
byte offset, the line and the column. A `Span` is the stretch between two positions, placed by the
line and column of its first character.
-/

namespace Scripting

/-- A stretch of a text: the byte offsets of its two ends, and the line and column where it starts.
Lines and columns count from one; the all-zero span stands for no place at all. -/
structure Span where
  start : Nat := 0
  stop : Nat := 0
  line : Nat := 0
  column : Nat := 0
  deriving DecidableEq, Inhabited

namespace Span

/-- The place of a span as people write it, `line:column`. -/
def text (span : Span) : String :=
  s!"{span.line}:{span.column}"

end Span

/-- A place between two characters of a text. -/
structure Position where
  offset : Nat := 0
  line : Nat := 1
  column : Nat := 1
  deriving DecidableEq, Inhabited

namespace Position

/-- The position after one more character. Offsets count bytes, columns count characters. -/
def next (position : Position) (c : Char) : Position :=
  if c = '\n' then
    { offset := position.offset + c.utf8Size, line := position.line + 1, column := 1 }
  else
    { offset := position.offset + c.utf8Size, line := position.line, column := position.column + 1 }

/-- The position after a run of characters. -/
def after (position : Position) (cs : List Char) : Position :=
  cs.foldl next position

@[simp] theorem after_nil (position : Position) : position.after [] = position := rfl

@[simp] theorem after_cons (position : Position) (c : Char) (cs : List Char) :
    position.after (c :: cs) = (position.next c).after cs := rfl

@[simp] theorem after_append (position : Position) (cs ds : List Char) :
    position.after (cs ++ ds) = (position.after cs).after ds := by
  simp [after]

/-- The stretch from one position to a later one. -/
def upTo (first last : Position) : Span :=
  { start := first.offset, stop := last.offset, line := first.line, column := first.column }

end Position

end Scripting
