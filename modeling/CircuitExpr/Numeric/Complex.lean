import CircuitExpr.Numeric.Tolerance

/-!
# Complex numbers

Pairs of a real and an imaginary part, with the textbook formula for each operation. The order
of the single operations is part of the definition: over doubles every one of them rounds.

## Contents

* the field operations, and `modulo`, a remainder by the quotient cut off part by part
* polar form: `norm`, `arg`, `ofPolar`
* the elementary functions, with the branch cuts that the signs of zeros select
-/

namespace CircuitExpr

/-- The complex number `re + im · i`. -/
structure Complex (K : Type) where
  re : K
  im : K

namespace Complex

open Literal RealFunctions

/-! ## Field operations -/

section Field

variable {K : Type} [Literal K]

instance : Add (Complex K) := ⟨fun z w => ⟨z.re + w.re, z.im + w.im⟩⟩

instance : Sub (Complex K) := ⟨fun z w => ⟨z.re - w.re, z.im - w.im⟩⟩

instance : Neg (Complex K) := ⟨fun z => ⟨-z.re, -z.im⟩⟩

instance : Mul (Complex K) :=
  ⟨fun z w => ⟨z.re * w.re - z.im * w.im, z.re * w.im + z.im * w.re⟩⟩

instance : Div (Complex K) :=
  ⟨fun z w =>
    let size := w.re * w.re + w.im * w.im
    ⟨(z.re * w.re + z.im * w.im) / size, (z.im * w.re - z.re * w.im) / size⟩⟩

instance : BEq (Complex K) := ⟨fun z w => z.re == w.re && z.im == w.im⟩

/-- A real number on the real axis. -/
def ofReal (x : K) : Complex K := ⟨x, 0⟩

/-- The imaginary unit. -/
def unit : Complex K := ⟨0, 1⟩

/-- What is left of `z` after taking away the multiple of `w` with whole parts. -/
def modulo (z w : Complex K) : Complex K :=
  let q := z / w
  z - w * ⟨q.re - Literal.modulo q.re 1, q.im - Literal.modulo q.im 1⟩

/-- The quotient, the real part of the denominator moved away from zero. -/
def safeDivide (z w : Complex K) (fudge : K) : Complex K :=
  let adjusted : Complex K := ⟨pushAway w.re fudge, w.im⟩
  if adjusted.re == 0 && adjusted.im == 0 then ⟨infinity, 0⟩ else z / adjusted

/-- The number or its negative, whichever has a real part that is not below zero. -/
def reflect (z : Complex K) : Complex K := if z.re ≥ 0 then z else -z

end Field

/-! ## Polar form -/

variable {K : Type} [RealFunctions K]

/-- The distance from the origin. -/
def norm (z : Complex K) : K := hypot z.re z.im

/-- The angle to the positive real axis. -/
def arg (z : Complex K) : K := atan2 z.im z.re

/-- The number at a distance from the origin and an angle to the real axis. -/
def ofPolar (r t : K) : Complex K := ⟨r * cos t, r * sin t⟩

/-! ## Elementary functions -/

/--
The exponential. At infinite real parts an imaginary part that is zero, infinite or undefined
does not take part in the polar form.
-/
def exp (z : Complex K) : Complex K :=
  if isInfinite z.re && z.re < 0 && !isFinite z.im then ⟨0, 0⟩
  else if isInfinite z.re && !(z.re < 0) && (z.im == 0 || !isFinite z.im) then
    ⟨z.re, if isInfinite z.im then undefined else z.im⟩
  else if isUndefined z.re && z.im == 0 then z
  else ofPolar (RealFunctions.exp z.re) z.im

/-- The principal logarithm. -/
def ln (z : Complex K) : Complex K := ⟨RealFunctions.ln z.norm, z.arg⟩

/-- The principal logarithm to base ten. -/
def log10 (z : Complex K) : Complex K :=
  let l := z.ln
  let ten := RealFunctions.ln (10.0 : K)
  ⟨l.re / ten, l.im / ten⟩

/-- The number with the minus sign of `source`, if that has one. -/
def withSignOf (x source : K) : K := if signBit source then -x else x

/--
The principal square root. On the axes it is taken from the real root, so that the sign of a zero
chooses the side of the branch cut.
-/
def sqrt (z : Complex K) : Complex K :=
  if z.im == 0 then
    if signBit z.re then ⟨0, withSignOf (RealFunctions.sqrt (-z.re)) z.im⟩
    else ⟨RealFunctions.sqrt z.re, z.im⟩
  else if z.re == 0 then
    let x := RealFunctions.sqrt (Literal.abs z.im / 2.0)
    ⟨x, withSignOf x z.im⟩
  else ofPolar (RealFunctions.sqrt z.norm) (z.arg / 2.0)

/-- The first number to the power of the second. -/
def pow (z w : Complex K) : Complex K :=
  if w.re == 0 && w.im == 0 then ⟨1, 0⟩ else exp (w * z.ln)

/-- The power of the reflected base; a square keeps the base as it is. -/
def power (z w : Complex K) : Complex K :=
  if w.im == 0 && w.re == 0 then ⟨1, 0⟩
  else if w.im == 0 && w.re == 1 then z.reflect
  else if w.im == 0 && w.re == 2.0 then z * z
  else z.reflect.pow w

def sin (z : Complex K) : Complex K :=
  ⟨RealFunctions.sin z.re * RealFunctions.cosh z.im,
    RealFunctions.cos z.re * RealFunctions.sinh z.im⟩

def cos (z : Complex K) : Complex K :=
  ⟨RealFunctions.cos z.re * RealFunctions.cosh z.im,
    -RealFunctions.sin z.re * RealFunctions.sinh z.im⟩

def sinh (z : Complex K) : Complex K :=
  ⟨RealFunctions.sinh z.re * RealFunctions.cos z.im,
    RealFunctions.cosh z.re * RealFunctions.sin z.im⟩

def cosh (z : Complex K) : Complex K :=
  ⟨RealFunctions.cosh z.re * RealFunctions.cos z.im,
    RealFunctions.sinh z.re * RealFunctions.sin z.im⟩

def tan (z : Complex K) : Complex K :=
  let re := z.re + z.re
  let im := z.im + z.im
  let size := RealFunctions.cos re + RealFunctions.cosh im
  ⟨RealFunctions.sin re / size, RealFunctions.sinh im / size⟩

def tanh (z : Complex K) : Complex K :=
  let re := z.re + z.re
  let im := z.im + z.im
  let size := RealFunctions.cosh re + RealFunctions.cos im
  ⟨RealFunctions.sinh re / size, RealFunctions.sin im / size⟩

def asin (z : Complex K) : Complex K :=
  -unit * (sqrt (ofReal 1 - z * z) + unit * z).ln

def acos (z : Complex K) : Complex K :=
  -unit * (unit * sqrt (ofReal 1 - z * z) + z).ln

/-- The arc tangent, infinite at its two poles. -/
def atan (z : Complex K) : Complex K :=
  if z == unit then ⟨0, infinity⟩
  else if z == -unit then ⟨0, -infinity⟩
  else ((ofReal 1 + unit * z).ln - (ofReal 1 - unit * z).ln) / ((ofReal 1 + ofReal 1) * unit)

/-- Whether two numbers are closer than the tolerances. -/
def fuzzyEquals (z w : Complex K) (tolerances : Tolerances K) : Bool :=
  let scale := larger z.norm w.norm
  (z - w).norm ≤ larger (tolerances.relative * scale) tolerances.absolute

end Complex

end CircuitExpr
