/-!
# Decimal digits of a fraction

A positive fraction is written as `0.d₁d₂…dₙ · 10 ^ point`, with `d₁` not zero. This module finds
the place of the first digit of a quotient of two numbers and rounds a quotient to a given count
of digits.

## Contents

* `Decimal.place` — the power of ten below a quotient
* `Decimal.scale` — a quotient in units of a power of ten
* `Decimal.roundTo` — a quotient rounded to a count of digits, a half going to the even digit
-/

namespace CircuitExpr

/-- The digits of a number, most significant first, and the power of ten in front of them. -/
structure Decimal where
  digits : List Char
  point : Int
deriving DecidableEq

namespace Decimal

/-- How many digits a number has in base ten; zero has one. -/
def length (n : Nat) : Nat := (Nat.toDigits 10 n).length

/--
The `k` with `10 ^ k ≤ num / den < 10 ^ (k + 1)`.

Below one, `10 ^ j` reaches `den / num` exactly when it exceeds the greatest whole number below
that quotient, so the digits of this number count the places.
-/
def place (num den : Nat) : Int :=
  if den ≤ num then (length (num / den) : Int) - 1
  else -(length ((den - 1) / num) : Int)

/-- The quotient `num / den` in units of `10 ^ k`, again as a quotient. -/
def scale (num den : Nat) (k : Int) : Nat × Nat :=
  (num * Nat.pow 10 (-k).toNat, den * Nat.pow 10 k.toNat)

/-- The digits without the zeros at their end. -/
def trimZeros (digits : List Char) : List Char :=
  (digits.reverse.dropWhile (· == '0')).reverse

/-- The digits of `n` units of `10 ^ k`, without zeros at their end. -/
def ofUnits (n : Nat) (k : Int) : Decimal :=
  ⟨trimZeros (Nat.toDigits 10 n), length n + k⟩

/-- The whole number nearest to `num / den`; a half goes to the even one. -/
def roundHalfEven (num den : Nat) : Nat :=
  let q := num / den
  let r := num % den
  if 2 * r < den then q
  else if 2 * r = den then q + q % 2
  else q + 1

/-- Exactly `count` digits of `num / den`, the last one rounded. -/
def roundTo (count num den : Nat) : Decimal :=
  let unit := place num den + 1 - count
  let scaled := scale num den unit
  let digits := Nat.toDigits 10 (roundHalfEven scaled.1 scaled.2)
  ⟨digits.take count, digits.length + unit⟩

end Decimal

end CircuitExpr
