import CircuitExpr.Expr.Error
import CircuitExpr.Numeric.Complex

/-!
# The numbers that expressions are evaluated in

Expressions are written with real constants and evaluated in a domain: the real numbers, or the
complex numbers for small signals. `Scalar D K` says how a domain `D` computes, `K` being the
real numbers of the constants.

## Contents

* `Elementary` — the functions of one argument
* `Scalar` — the operations of a domain; no law is required
* `Scalar.isTrue`, `Scalar.ofBool` — numbers as flags: true above one half
* the real and the complex domain
-/

namespace CircuitExpr

/-- The functions of one argument. -/
inductive Elementary where
  | abs
  | sgn
  | sqrt
  | exp
  | ln
  | log10
  | sin
  | cos
  | tan
  | asin
  | acos
  | atan
  | sinh
  | cosh
  | tanh
  | floor
  | ceil
  | round
  | step
deriving DecidableEq

/-- A domain of numbers over the real numbers `K`. -/
class Scalar (D : Type) (K : outParam Type) extends Add D, Sub D, Mul D, Neg D, BEq D where
  /-- The name of the domain in messages. -/
  domain : String
  /-- Whether numbers of the domain can be compared by size. -/
  ordered : Bool
  ofReal : K → D
  /-- The part that conditions look at. -/
  real : D → K
  /-- The quotient, the denominator kept away from zero by the fudge. -/
  safeDivide : D → D → K → D
  power : D → D → D
  modulo : D → D → D
  fuzzyEquals : D → D → Tolerances K → Bool
  /-- Compares by size; only orderings can be asked for, and only in an ordered domain. -/
  compare : BinaryOp → D → D → Except ExpressionError Bool
  elementary : Elementary → D → D

namespace Scalar

variable {D K : Type} [Literal K] [Scalar D K]

/-- A number holds as a condition when its real part is above one half. -/
def isTrue (x : D) : Bool := real x > 0.5

/-- A flag as a number. -/
def ofBool (flag : Bool) : D := ofReal (Literal.ofBool flag)

/-- The number zero. -/
def zero : D := ofReal 0

/-- The value of what has no value. -/
def undefined : D := ofReal Literal.undefined

end Scalar

/-! ## The real domain -/

section Real

variable {K : Type} [RealFunctions K]

/-- Compares real numbers. -/
def Literal.compare (op : BinaryOp) (x y : K) : Except ExpressionError Bool :=
  match op with
  | .lt => .ok (x < y)
  | .gt => .ok (x > y)
  | .le => .ok (x ≤ y)
  | .ge => .ok (x ≥ y)
  | _ => .error (.unrecognizedNode ("'" ++ op.symbol ++ "' is not an ordering comparison"))

/-- The functions of one argument on real numbers. -/
def RealFunctions.elementary (f : Elementary) (x : K) : K :=
  match f with
  | .abs => Literal.abs x
  | .sgn => Literal.sign x
  | .sqrt => sqrt x
  | .exp => exp x
  | .ln => ln x
  | .log10 => log10 x
  | .sin => sin x
  | .cos => cos x
  | .tan => tan x
  | .asin => asin x
  | .acos => acos x
  | .atan => atan x
  | .sinh => sinh x
  | .cosh => cosh x
  | .tanh => tanh x
  | .floor => floor x
  | .ceil => ceil x
  | .round => round x
  | .step => Literal.ofBool (x > 0)

instance (priority := high) : Scalar K K where
  domain := "real"
  ordered := true
  ofReal x := x
  real x := x
  safeDivide := Literal.safeDivide
  power := RealFunctions.power
  modulo := Literal.modulo
  fuzzyEquals x y tolerances := Literal.fuzzyEquals x y tolerances.relative tolerances.absolute
  compare := Literal.compare
  elementary := RealFunctions.elementary

/-! ## The complex domain -/

/--
The functions of one argument on complex numbers. Sign and step look at the real part, and
rounding acts on both parts.
-/
def Complex.elementary (f : Elementary) (z : Complex K) : Complex K :=
  match f with
  | .abs => ofReal z.norm
  | .sgn => ofReal (Literal.sign z.re)
  | .sqrt => z.sqrt
  | .exp => z.exp
  | .ln => z.ln
  | .log10 => z.log10
  | .sin => z.sin
  | .cos => z.cos
  | .tan => z.tan
  | .asin => z.asin
  | .acos => z.acos
  | .atan => z.atan
  | .sinh => z.sinh
  | .cosh => z.cosh
  | .tanh => z.tanh
  | .floor => ⟨RealFunctions.floor z.re, RealFunctions.floor z.im⟩
  | .ceil => ⟨RealFunctions.ceil z.re, RealFunctions.ceil z.im⟩
  | .round => ⟨RealFunctions.round z.re, RealFunctions.round z.im⟩
  | .step => ofReal (Literal.ofBool (z.re > 0))

instance (priority := high) : Scalar (Complex K) K where
  domain := "complex"
  ordered := false
  ofReal := Complex.ofReal
  real z := z.re
  safeDivide := Complex.safeDivide
  power := Complex.power
  modulo := Complex.modulo
  fuzzyEquals := Complex.fuzzyEquals
  compare op _ _ := .error (.unsupportedOperator op "complex")
  elementary := Complex.elementary

end Real

end CircuitExpr
