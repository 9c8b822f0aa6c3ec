import CircuitExpr.Decimal.Shortest

/-!
# Written forms of doubles

Three forms, each with words of its own for what is no finite number:

* `display` — positional, the shortest digits, no point in a whole number: `0.0000001`, `5`;
* `inspect` — the shortest digits with at least one decimal, and an exponent for numbers from
  `1e16` on and below `1e-4`: `2.0`, `1.25e21`;
* `scientific` — always an exponent and twelve significant digits: `1.50000000000e0`. The numbers
  of two runs are compared in it, since twelve digits leave out the last bits, in which libraries
  of mathematical functions differ.
-/

namespace CircuitExpr.Decimal

/-! ## Layout -/

/-- A row of zeros. -/
def zeros (n : Nat) : List Char := List.replicate n '0'

/-- The digits with the point between the units and the tenths; none after a whole number. -/
def positional (d : Decimal) : List Char :=
  if d.point ≤ 0 then '0' :: '.' :: zeros (-d.point).toNat ++ d.digits
  else
    let units := d.point.toNat
    if d.digits.length ≤ units then d.digits ++ zeros (units - d.digits.length)
    else d.digits.take units ++ '.' :: d.digits.drop units

/-- One digit before the point, the others behind it, and the exponent. -/
def exponential (d : Decimal) : List Char :=
  let fraction := d.digits.drop 1
  d.digits.take 1 ++ (if fraction.isEmpty then [] else '.' :: fraction)
    ++ 'e' :: (toString (d.point - 1)).toList

/-- The minus sign of a number that has one. -/
def sign (negative : Bool) : List Char := if negative then ['-'] else []

/-! ## The three forms -/

/-- The positional form of a number. -/
def display (x : Float) : String :=
  if x.isNaN then "NaN"
  else
    let b := Binary64.ofFloat x
    let size :=
      if x.isInf then "inf".toList
      else if b.mantissa = 0 then ['0']
      else positional (shortest b)
    String.ofList (sign b.negative ++ size)

/-- The form with at least one decimal or an exponent. -/
def inspect (x : Float) : String :=
  if x.isNaN then "NaN"
  else
    let b := Binary64.ofFloat x
    let size :=
      if x.isInf then "inf".toList
      else if b.mantissa = 0 then "0.0".toList
      else
        let d := shortest b
        if d.point ≤ -4 ∨ 17 ≤ d.point then exponential d
        else
          let plain := positional d
          if plain.contains '.' then plain else plain ++ ['.', '0']
    String.ofList (sign b.negative ++ size)

/-- The form with twelve significant digits, in which numbers are compared. -/
def scientific (x : Float) : String :=
  if x.isNaN then "nan"
  else
    let b := Binary64.ofFloat x
    let size :=
      if x.isInf then "inf".toList
      else if b.mantissa = 0 then ['0']
      else
        let i := Interval.of b
        exponential (roundTo 12 i.value i.denominator)
    String.ofList (sign b.negative ++ size)

end CircuitExpr.Decimal
