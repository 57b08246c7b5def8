import Scripting.Number.Decimal

/-!
# Binary64 numbers

The step between decimals and doubles, in exact integer arithmetic. A finite double without its sign
is `significand * 2 ^ exponent`; its bit pattern is a number below `infinity`, and the order of the
patterns is the order of the numbers.

* `nearest` rounds a quotient to the nearest double, a tie going to the even pattern.
* `shortest` finds the decimal with the fewest digits among those that round to a given double, and
  of these the nearest one, the larger of two that are equally near.
-/

namespace Scripting.Number

/-- The pattern of infinity; smaller patterns are the finite doubles, larger ones are not numbers. -/
def infinity : Nat := 2047 * twoTo 52

/-- The quotient rounded to the nearest whole number, a half going to the even one. -/
def roundHalfEven (num den : Nat) : Nat :=
  let quotient := num / den
  let rest := 2 * (num % den)
  if rest < den then quotient
  else if den < rest then quotient + 1
  else quotient + quotient % 2

/-- The quotient `num / den` times a power of two, as a quotient. -/
def scale (num den : Nat) (power : Int) : Nat × Nat :=
  if 0 ≤ power then (num * twoTo power.toNat, den) else (num, den * twoTo (-power).toNat)

/-- The exponent of the largest power of two not above `num / den`. -/
def floorLog2 (num den : Nat) : Int :=
  let guess : Int := (Nat.log2 num : Int) - Nat.log2 den
  let (n, d) := scale num den (-guess)
  if d ≤ n then guess else guess - 1

/-- The pattern of the double nearest to `num / den`. -/
def nearest (num den : Nat) : Nat :=
  if num = 0 then 0
  else
    let exponent := max (floorLog2 num den - 52) (-1074)
    let (n, d) := scale num den (-exponent)
    min ((exponent + 1074).toNat * twoTo 52 + roundHalfEven n d) infinity

/-- The pattern of the double nearest to a decimal. Decimals far outside the range of the doubles are
settled by a rough count of their places: a number of `n + 1` binary places has at least `3 * n / 10`
and at most `31 * n / 100 + 2` decimal places. -/
def Decimal.nearest (d : Decimal) : Nat :=
  if d.digits = 0 then 0
  else if 310 < (3 * Nat.log2 d.digits / 10 : Nat) + d.exponent then infinity
  else if (31 * Nat.log2 d.digits / 100 + 2 : Nat) + d.exponent < -330 then 0
  else if 0 ≤ d.exponent then Number.nearest (d.digits * tenTo d.exponent.toNat) 1
  else Number.nearest d.digits (tenTo (-d.exponent).toNat)

/-- The significand of a finite pattern. -/
def significand (pattern : Nat) : Nat :=
  if pattern / twoTo 52 = 0 then pattern else twoTo 52 + pattern % twoTo 52

/-- The exponent of a finite pattern. -/
def exponent (pattern : Nat) : Int :=
  if pattern / twoTo 52 = 0 then -1074 else (pattern / twoTo 52 : Int) - 1075

/-- The numbers that round to one double, as multiples of `unit / denominator`: they lie between
`low` and `high`, the double itself is `value`, and `closed` says whether the two ends belong. -/
structure Interval where
  low : Nat
  value : Nat
  high : Nat
  denominator : Nat
  closed : Bool

/-- The numbers that round to the double with the given finite pattern. The gap below a power of two
is half the gap above it, except among the smallest doubles. -/
def Interval.of (pattern : Nat) : Interval :=
  let m := significand pattern
  let q := exponent pattern
  let below := if m = twoTo 52 ∧ -1074 < q then 1 else 2
  let unit := twoTo (q - 2).toNat
  { low := (4 * m - below) * unit
    value := 4 * m * unit
    high := (4 * m + 2) * unit
    denominator := twoTo (2 - q).toNat
    closed := m % 2 == 0 }

namespace Interval

/-- Whether `num / den` lies in the interval. -/
def contains (i : Interval) (num den : Nat) : Bool :=
  let n := num * i.denominator
  if i.closed then i.low * den ≤ n && n ≤ i.high * den else i.low * den < n && n < i.high * den

/-- The number of digits that the interval's value has in front of the point. The binary logarithm
times a hair more than the decimal logarithm of two is right for a double up to one digit, and a
comparison settles which it is. -/
def magnitude (i : Interval) : Int :=
  let guess := floorLog2 i.value i.denominator * 30103 / 100000 + 1
  if tenTo guess.toNat * i.denominator ≤ i.value * tenTo (-guess).toNat then guess + 1 else guess

/-- The decimal of `count` digits, the first of them `magnitude` places in front of the point, that
lies in the interval nearest to its value, if there is one. Only the two neighbours of the value on
the grid of such decimals come into question. -/
def ofDigits? (i : Interval) (magnitude : Int) (count : Nat) : Option Decimal :=
  let power := magnitude - count
  let num := tenTo power.toNat
  let den := tenTo (-power).toNat
  let down := i.value * den / (i.denominator * num)
  let up := down + 1
  match i.contains (down * num) den, i.contains (up * num) den with
  | true, true =>
    if (down + up) * num * i.denominator ≤ 2 * i.value * den then some ⟨up, power⟩
    else some ⟨down, power⟩
  | true, false => some ⟨down, power⟩
  | false, true => some ⟨up, power⟩
  | false, false => none

end Interval

/-- The shortest decimal that rounds to the double with the given finite pattern. Seventeen digits
always suffice. -/
def shortest (pattern : Nat) : Decimal :=
  let i := Interval.of pattern
  let magnitude := i.magnitude
  ((List.range 17).findSome? fun n => i.ofDigits? magnitude (n + 1)).getD ⟨0, 0⟩

end Scripting.Number
