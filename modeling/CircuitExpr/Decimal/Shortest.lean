import CircuitExpr.Decimal.Digits
import CircuitExpr.Numeric.Binary64

/-!
# The shortest decimal of a double

Of the decimals that read back as a given double the shortest one is written, and of several of
the same length the nearest.

## How it is found

The numbers that read back as the double form an interval around it. It reaches half way to the
neighbouring doubles, and its ends belong to it when the mantissa is even. For one digit, two
digits and so on, the two multiples of the power of ten next to the double are tried; the first
length at which one of them lies in the interval wins. If both do, the nearer one is taken, the
upper one when they are equally near. Seventeen digits always suffice.
-/

namespace CircuitExpr.Decimal

/--
A double and the interval of numbers that read back as it, all over the same denominator.
-/
structure Interval where
  low : Nat
  value : Nat
  high : Nat
  denominator : Nat
  closed : Bool

/--
The interval of a positive double. Below a power of two the doubles lie twice as close, so there
the lower half is half as wide.
-/
def Interval.of (b : Binary64) : Interval :=
  let narrow := b.mantissa = (1 <<< 52) ∧ -1074 < b.exponent
  let up := 1 <<< (b.exponent - 2).toNat
  { low := (4 * b.mantissa - if narrow then 1 else 2) * up
    value := 4 * b.mantissa * up
    high := (4 * b.mantissa + 2) * up
    denominator := 1 <<< (2 - b.exponent).toNat
    closed := b.mantissa % 2 == 0 }

/-- Whether the first number is below the second, or equal to it where that is allowed. -/
def below (closed : Bool) (m n : Nat) : Bool := if closed then m ≤ n else m < n

/-- The decimal of `count` digits that reads back, if there is one. -/
def Interval.decimal? (i : Interval) (first : Int) (count : Nat) : Option Decimal :=
  let unit := first + 1 - count
  let tens := Nat.pow 10 (-unit).toNat
  let den := i.denominator * Nat.pow 10 unit.toNat
  let floor := i.value * tens / den
  let rest := i.value * tens % den
  let down := below i.closed (i.low * tens) (floor * den)
  let up := below i.closed ((floor + 1) * den) (i.high * tens)
  if down && (!up || 2 * rest < den) then some (ofUnits floor unit)
  else if up then some (ofUnits (floor + 1) unit)
  else none

/-- The shortest decimal of a positive double. -/
def shortest (b : Binary64) : Decimal :=
  let i := Interval.of b
  let first := place i.value i.denominator
  ((List.range 17).findSome? fun n => i.decimal? first (n + 1)).getD
    (roundTo 17 i.value i.denominator)

end CircuitExpr.Decimal
