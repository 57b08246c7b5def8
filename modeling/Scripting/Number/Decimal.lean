/-!
# Decimals

A finite decimal `digits * 10 ^ exponent`, how it is read from a text, and its positional text.
Reading takes digits with an optional point and an optional exponent, with a digit on at least one
side of the point. An exponent stops growing at `exponentCap`, far outside the range of the doubles.
-/

namespace Scripting.Number

/-- The number `digits * 10 ^ exponent`. -/
structure Decimal where
  digits : Nat
  exponent : Int
  deriving DecidableEq, Inhabited

/-- A power of two. -/
def twoTo (n : Nat) : Nat := Nat.pow 2 n

/-- A power of ten. -/
def tenTo (n : Nat) : Nat := Nat.pow 10 n

/-- The value of a decimal digit. -/
def digitValue (d : Char) : Nat := d.toNat - '0'.toNat

/-- Digits to some base, the lowest first, joined in pairs to digits to the square of the base. -/
def joinPairs (base : Nat) : List Nat → List Nat
  | [] => []
  | [d] => [d]
  | low :: high :: rest => (low + base * high) :: joinPairs base rest

theorem length_joinPairs (base : Nat) (ds : List Nat) :
    (joinPairs base ds).length = (ds.length + 1) / 2 := by
  fun_induction joinPairs base ds with
  | case1 => rfl
  | case2 d => simp
  | case3 low high rest ih =>
    simp only [List.length_cons, ih]
    omega

/-- The number that digits to some base write, the lowest first. Joining neighbours until one digit is
left takes few steps, however many digits there are. -/
def ofBase (base : Nat) : List Nat → Nat
  | [] => 0
  | [d] => d
  | low :: high :: rest => ofBase (base * base) (joinPairs base (low :: high :: rest))
termination_by ds => ds.length
decreasing_by
  rw [length_joinPairs]
  simp only [List.length_cons]
  omega

/-- The number that a list of decimal digits writes. -/
def ofDigits (ds : List Char) : Nat :=
  ofBase 10 (ds.reverse.map digitValue)

namespace Decimal

/-- From here on an exponent takes no more digits. -/
def exponentCap : Nat := 65536

/-- The exponent that some digits write. Digits that follow after it has reached the cap do not
count. -/
def cappedExponent (ds : List Char) : Nat :=
  ds.foldl (fun n d => if n < exponentCap then 10 * n + digitValue d else n) 0

/-- The exponent part of a decimal: nothing, or `e` with an optional sign and some digits. -/
def exponent? : List Char → Option Int
  | [] => some 0
  | mark :: rest =>
    if mark = 'e' ∨ mark = 'E' then
      match rest with
      | '-' :: ds => unsigned? ds |>.map fun n => -(n : Int)
      | '+' :: ds => unsigned? ds |>.map fun n => (n : Int)
      | ds => unsigned? ds |>.map fun n => (n : Int)
    else
      none
where
  /-- An exponent written with digits only, and at least one. -/
  unsigned? (ds : List Char) : Option Nat :=
    if !ds.isEmpty && ds.all Char.isDigit then some (cappedExponent ds) else none

/-- The decimal that a text without a sign writes. -/
def ofChars? (cs : List Char) : Option Decimal :=
  let whole := cs.takeWhile Char.isDigit
  let (fraction, rest) :=
    match cs.dropWhile Char.isDigit with
    | '.' :: tail => (tail.takeWhile Char.isDigit, tail.dropWhile Char.isDigit)
    | tail => ([], tail)
  if whole.isEmpty && fraction.isEmpty then
    none
  else
    (exponent? rest).map fun exponent =>
      { digits := ofDigits (whole ++ fraction), exponent := exponent - fraction.length }

/-- The number of digits in front of the point, so that the decimal is below ten to this power. -/
def magnitude (d : Decimal) : Int :=
  (Nat.toDigits 10 d.digits).length + d.exponent

/-- The positional text of a decimal: no exponent, and no point after a whole number. -/
def text (d : Decimal) : String :=
  let all := Nat.toDigits 10 d.digits
  let significant := (all.reverse.dropWhile (· = '0')).reverse
  let point := d.magnitude
  if point ≤ 0 then
    "0." ++ String.ofList (List.replicate (-point).toNat '0' ++ significant)
  else if point < significant.length then
    String.ofList (significant.take point.toNat) ++ "." ++
      String.ofList (significant.drop point.toNat)
  else
    String.ofList (significant ++ List.replicate (point.toNat - significant.length) '0')

end Decimal

end Scripting.Number
