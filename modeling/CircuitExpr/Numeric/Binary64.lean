/-!
# Double precision numbers as exact fractions

A finite double is `± mantissa · 2 ^ exponent` with a mantissa below `2 ^ 53`. What has to be
exact (decimal text, the remainder of a division, the length of a vector) is computed on these
integers and not on the doubles themselves.

## Contents

* `Binary64.ofFloat` — takes a double apart
* `Binary64.toFloat` — the double nearest to a fraction
* `remainder` — the exact remainder of a division, with the sign of the dividend
* `hypotenuse` — the square root of a sum of squares, rounded once
-/

namespace CircuitExpr

/-- The fraction `± mantissa · 2 ^ exponent`. -/
structure Binary64 where
  negative : Bool
  mantissa : Nat
  exponent : Int
deriving DecidableEq

namespace Binary64

/-! ## Taking apart and putting together -/

/-- The sign bit of a double, which zeros and undefined values have too. -/
def signBit (x : Float) : Bool := x.toBits >>> 63 == 1

/-- The fraction that a finite double stands for. For the others it has no meaning. -/
def ofFloat (x : Float) : Binary64 :=
  let bits := x.toBits.toNat
  let fraction : Nat := bits % (1 <<< 52)
  let biased : Nat := (bits >>> 52) % (1 <<< 11)
  if biased = 0 then ⟨signBit x, fraction, -1074⟩
  else ⟨signBit x, (1 <<< 52) + fraction, (biased : Int) - 1075⟩

/-- The double nearest to a fraction. -/
def toFloat (b : Binary64) : Float :=
  let size := Float.scaleB (Float.ofNat b.mantissa) b.exponent
  if b.negative then -size else size

/-- The mantissa of the same fraction written with the smaller exponent `e`. -/
def mantissaAt (b : Binary64) (e : Int) : Nat := b.mantissa <<< (b.exponent - e).toNat

end Binary64

/-! ## Remainder -/

/--
The remainder of `x` divided by `y`, with the sign of `x`.

Both are written with the smaller of their exponents, so that the remainder of the mantissas is
exact; being smaller than one of them it is a double again.
-/
def remainder (x y : Float) : Float :=
  if x.isNaN || y.isNaN || x.isInf || y == 0 then 0 / 0
  else if y.isInf || x == 0 then x
  else
    let a := Binary64.ofFloat x
    let b := Binary64.ofFloat y
    let e := min a.exponent b.exponent
    Binary64.toFloat ⟨a.negative, a.mantissaAt e % b.mantissaAt e, e⟩

/-! ## Hypotenuse -/

/-- The integer square root, two binary digits at a time. -/
def integerRoot (n : Nat) : Nat :=
  if n < 2 then n
  else
    let r := 2 * integerRoot (n / 4)
    if (r + 1) * (r + 1) ≤ n then r + 1 else r
termination_by n
decreasing_by omega

/--
The square root of the fraction `n · 2 ^ (2 · e)`.

The number is brought to about 124 binary digits, so that its root has 62; whatever is lost on
the way is remembered in one more digit, which decides ties.
-/
def roundedRoot (n : Nat) (e : Int) : Float :=
  let size := Nat.log2 n
  let shift := (size - 123 + 1) / 2
  let lift := (124 - size) / 2
  let scaled := (n <<< (2 * lift)) >>> (2 * shift)
  let root := integerRoot scaled
  let exact := root * root == scaled && (scaled <<< (2 * shift)) == (n <<< (2 * lift))
  Binary64.toFloat ⟨false, 2 * root + (if exact then 0 else 1), e + shift - lift - 1⟩

/--
The length of the vector `(x, y)`. An infinite component makes it infinite, whatever the other
one is.
-/
def hypotenuse (x y : Float) : Float :=
  if x.isInf || y.isInf then 1 / 0
  else if x.isNaN || y.isNaN then 0 / 0
  else
    let a := Binary64.ofFloat x
    let b := Binary64.ofFloat y
    let e := min a.exponent b.exponent
    let p := a.mantissaAt e
    let q := b.mantissaAt e
    if p * p + q * q = 0 then 0 else roundedRoot (p * p + q * q) e

end CircuitExpr
