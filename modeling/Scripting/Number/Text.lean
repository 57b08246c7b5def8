import Scripting.Number.Binary

/-!
# Texts of numbers

`Number.ofText?` reads a double and `Number.text` writes one. The written text has the fewest digits
that read back to the same double, always in positional notation.
-/

namespace Scripting.Number

/-- The double with the given pattern, which stays below `2 ^ 63`, and a sign. -/
def ofPattern (negative : Bool) (pattern : Nat) : Float :=
  Float.ofBits (pattern + if negative then twoTo 63 else 0).toUInt64

/-- The pattern that stands for no number. -/
def notANumber : Nat := infinity + twoTo 51

/-- The pattern that a text without a sign writes: a decimal, or a name in any letter case. -/
def pattern? (cs : List Char) : Option Nat :=
  let name := String.ofList (cs.map Char.toLower)
  if name = "inf" ∨ name = "infinity" then some infinity
  else if name = "nan" then some notANumber
  else (Decimal.ofChars? cs).map Decimal.nearest

/-- The double that a text writes, rounded to nearest. There is room for one sign and for nothing
else around the number. -/
def ofText? (text : String) : Option Float :=
  match text.toList with
  | '-' :: cs => (pattern? cs).map (ofPattern true)
  | '+' :: cs => (pattern? cs).map (ofPattern false)
  | cs => (pattern? cs).map (ofPattern false)

/-- The text of a double. -/
def text (x : Float) : String :=
  let bits := x.toBits.toNat
  let sign := if twoTo 63 ≤ bits then "-" else ""
  let pattern := bits % twoTo 63
  if infinity < pattern then "NaN"
  else if pattern = infinity then sign ++ "inf"
  else if pattern = 0 then sign ++ "0"
  else sign ++ (shortest pattern).text

end Scripting.Number
