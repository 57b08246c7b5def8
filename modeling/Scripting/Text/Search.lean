/-!
# Finding and filling

`replaceFirst` exchanges the leftmost occurrence of a text. `fill` exchanges the leftmost
placeholders of a format for given texts, one after another; what it puts in is never read again.
-/

namespace Scripting.Text

/-- `text` with the leftmost occurrence of `needle` exchanged for `replacement`. The empty needle
occurs in front of the first character. -/
def replaceFirst (needle replacement text : String) : String :=
  match text.find? needle with
  | some place =>
    (text.sliceTo place).copy ++ replacement ++ ((text.sliceFrom place).dropPrefix needle).copy
  | none => text

/-- The format with its leftmost placeholders, a pair of braces, exchanged for the pieces in order.
Placeholders left over stay as they are, and so do pieces left over. -/
def fill : List Char → List (List Char) → List Char
  | '\x7b' :: '\x7d' :: rest, piece :: pieces => piece ++ fill rest pieces
  | c :: rest, pieces => c :: fill rest pieces
  | [], _ => []

end Scripting.Text
