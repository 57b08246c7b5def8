/-!
# Lines of a text

A line ends at a line feed, and a carriage return right before the line feed belongs to the ending.
A text that ends in a line feed has no empty last line.
-/

namespace Scripting.Text

/-- The lines of a list of characters, without their endings. -/
def cutLines : List Char → List (List Char)
  | [] => []
  | '\r' :: '\n' :: rest => [] :: cutLines rest
  | '\n' :: rest => [] :: cutLines rest
  | c :: rest =>
    match cutLines rest with
    | [] => [[c]]
    | line :: lines => (c :: line) :: lines

/-- The lines of a text, without their endings. -/
def lines (text : String) : List String :=
  (cutLines text.toList).map String.ofList

/-- Line `number` of a text, counting from one. -/
def line? (text : String) (number : Nat) : Option String :=
  if number = 0 then none else (lines text)[number - 1]?

end Scripting.Text
