/-!
# Ranges of characters

A set of characters as ranges of their numbers, both ends included.
-/

namespace Scripting.Text

/-- Whether one of the ranges holds the character. -/
def inRanges (ranges : Array (Nat × Nat)) (c : Char) : Bool :=
  ranges.any fun (first, last) => first ≤ c.toNat && c.toNat ≤ last

end Scripting.Text
