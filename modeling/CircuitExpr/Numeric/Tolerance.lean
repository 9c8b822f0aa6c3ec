import CircuitExpr.Numeric.Literal

/-!
# Tolerant arithmetic of real numbers

Division, power and equality are softened so that a circuit solver can walk over the points where
they are singular:

* a division keeps its denominator away from zero by a small amount, the fudge;
* a power takes the distance of its base from zero, except for a square;
* two numbers are equal when they are close.
-/

namespace CircuitExpr

/-- How far division and equality are softened. -/
structure Tolerances (K : Type) where
  /-- What is added to the size of a denominator. -/
  fudge : K
  /-- The distance of equal numbers as a share of the larger one. -/
  relative : K
  /-- The distance of equal numbers that are themselves small. -/
  absolute : K

namespace Tolerances

variable {K : Type} [Literal K]

/-- The tolerances in force unless others are asked for. -/
def default : Tolerances K := ⟨1e-20, 1e-6, 1e-12⟩

/-- The fudge of a circuit whose smallest conductance is `gmin`. -/
def ofGmin (gmin : K) : Tolerances K := { default with fudge := gmin * 1e-20 }

end Tolerances

namespace Literal

variable {K : Type} [Literal K]

/-- Moves a denominator away from zero; zero itself moves up. -/
def pushAway (denominator fudge : K) : K :=
  if denominator ≥ 0 then denominator + fudge else denominator - fudge

/-- A division that never meets the denominator zero: what would, is infinite. -/
def safeDivide (numerator denominator fudge : K) : K :=
  let adjusted := pushAway denominator fudge
  if adjusted == 0 then infinity else numerator / adjusted

/-- Whether two numbers are closer than the tolerances. -/
def fuzzyEquals (x y relative absolute : K) : Bool :=
  let scale := larger (abs x) (abs y)
  abs (x - y) ≤ larger (relative * scale) absolute

end Literal

/-- The power of the size of the base; a square keeps the base as it is. -/
def RealFunctions.power {K : Type} [RealFunctions K] (base exponent : K) : K :=
  if exponent == 0 then 1
  else if exponent == 1 then Literal.abs base
  else if exponent == 2.0 then base * base
  else pow (Literal.abs base) exponent

end CircuitExpr
