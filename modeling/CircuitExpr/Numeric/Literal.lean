import CircuitExpr.Decimal.Write

/-!
# The numbers that expressions are written with

The constants of an expression are real numbers. What is done to them is gathered in two classes,
so that a statement about expressions can be made over exact numbers as well as over doubles:

* `Literal K` — arithmetic, order and the written form; all that simplification and
  differentiation need
* `RealFunctions K` — the elementary functions, which evaluation needs besides

No law is required of either: doubles satisfy few.
-/

namespace CircuitExpr

/-! ## Arithmetic -/

/-- Real numbers with the operations that expressions are simplified and differentiated by. -/
class Literal (K : Type) extends
    Add K, Sub K, Mul K, Div K, Neg K, Zero K, One K, OfScientific K, BEq K, LT K, LE K where
  decidableLT : DecidableLT K
  decidableLE : DecidableLE K
  /-- The distance from zero. -/
  abs : K → K
  /-- What is left of the first number after taking away whole multiples of the second. -/
  modulo : K → K → K
  /-- A number above all others. -/
  infinity : K
  /-- The value of what has no value. -/
  undefined : K
  /-- The written form. -/
  text : K → String

attribute [reducible, instance] Literal.decidableLT Literal.decidableLE

namespace Literal

variable {K : Type} [Literal K]

/-- The greater of two numbers; a number is preferred to an undefined value. -/
def larger (x y : K) : K := if x < y || !(x == x) then y else x

/-- `1`, `-1` or `0` as the number is above, below or at zero. -/
def sign (x : K) : K := if x > 0 then 1 else if x < 0 then -1 else 0

/-- A flag as a number. -/
def ofBool (flag : Bool) : K := if flag then 1 else 0

end Literal

instance : Literal Float where
  zero := 0
  one := 1
  decidableLT := inferInstance
  decidableLE := inferInstance
  abs := Float.abs
  modulo := remainder
  infinity := 1 / 0
  undefined := 0 / 0
  text := Decimal.display

/-! ## Elementary functions -/

/-- Real numbers with the elementary functions. -/
class RealFunctions (K : Type) extends Literal K where
  sqrt : K → K
  exp : K → K
  ln : K → K
  log10 : K → K
  sin : K → K
  cos : K → K
  tan : K → K
  asin : K → K
  acos : K → K
  atan : K → K
  sinh : K → K
  cosh : K → K
  tanh : K → K
  floor : K → K
  ceil : K → K
  /-- The nearest whole number; a half goes away from zero. -/
  round : K → K
  /-- The first number to the power of the second. -/
  pow : K → K → K
  /-- The length of the vector with these components. -/
  hypot : K → K → K
  /-- The angle of the point whose ordinate comes first. -/
  atan2 : K → K → K
  /-- Whether the number bears a minus sign, which a zero can. -/
  signBit : K → Bool
  isInfinite : K → Bool
  isFinite : K → Bool
  isUndefined : K → Bool

instance : RealFunctions Float where
  sqrt := Float.sqrt
  exp := Float.exp
  ln := Float.log
  log10 := Float.log10
  sin := Float.sin
  cos := Float.cos
  tan := Float.tan
  asin := Float.asin
  acos := Float.acos
  atan := Float.atan
  sinh := Float.sinh
  cosh := Float.cosh
  tanh := Float.tanh
  floor := Float.floor
  ceil := Float.ceil
  round := Float.round
  pow := Float.pow
  hypot := hypotenuse
  atan2 := Float.atan2
  signBit := Binary64.signBit
  isInfinite := Float.isInf
  isFinite := Float.isFinite
  isUndefined := Float.isNaN

end CircuitExpr
