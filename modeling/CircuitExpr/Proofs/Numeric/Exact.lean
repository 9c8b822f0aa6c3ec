import Mathlib
import CircuitExpr.Evaluation.Operation

/-!
# Exact numbers, and numbers with a slope

Over doubles a derivative is right up to rounding only. Over rational numbers it can be right
exactly: `RealFunctions ℚ` computes without rounding what is rational.

A dual number is a value together with its slope, that is with how fast it changes. Arithmetic
of dual numbers applies the rules of differentiation to numbers, where the symbolic derivative
applies them to expressions.

## Contents

* `Rational.truncate` — cutting off towards zero
* `RealFunctions ℚ` — exact numbers
* `Dual` — values with slopes, and their arithmetic
* `safeDivide_of_ne_zero`, `power_natCast`, `truncate_eq` — exact arithmetic at ordinary points
-/

namespace CircuitExpr

/-! ## Exact numbers -/

namespace Rational

/-- The whole number next to a number on the side of zero. -/
def truncate (x : ℚ) : ℤ := if 0 ≤ x then ⌊x⌋ else ⌈x⌉

end Rational

/-- Exact numbers. None is above all others or stands for what has no value; zero takes both places. -/
instance : Literal ℚ where
  decidableLT := inferInstance
  decidableLE := inferInstance
  abs x := |x|
  modulo x y := x - Rational.truncate (x / y) * y
  infinity := 0
  undefined := 0
  text := toString

/--
Exact functions where values are rational: rounding, and powers with whole exponents. The others
have no value.
-/
instance : RealFunctions ℚ where
  sqrt _ := Literal.undefined
  exp _ := Literal.undefined
  ln _ := Literal.undefined
  log10 _ := Literal.undefined
  sin _ := Literal.undefined
  cos _ := Literal.undefined
  tan _ := Literal.undefined
  asin _ := Literal.undefined
  acos _ := Literal.undefined
  atan _ := Literal.undefined
  sinh _ := Literal.undefined
  cosh _ := Literal.undefined
  tanh _ := Literal.undefined
  floor x := ⌊x⌋
  ceil x := ⌈x⌉
  round x := Rational.truncate (x + Literal.sign x / 2)
  pow x y := if y.den = 1 then x ^ y.num else Literal.undefined
  hypot _ _ := Literal.undefined
  atan2 _ _ := Literal.undefined
  signBit x := x < 0
  isInfinite _ := false
  isFinite _ := true
  isUndefined _ := false

/-! ## Dual numbers -/

/-- A value and its slope. -/
@[ext]
structure Dual where
  value : ℚ
  slope : ℚ
deriving DecidableEq

namespace Dual

/-- A number that does not change. -/
def fixed (x : ℚ) : Dual := ⟨x, 0⟩

/-- A quotient changes by the quotient rule. -/
def divide (x y : Dual) (fudge : ℚ) : Dual :=
  ⟨Literal.safeDivide x.value y.value fudge,
    (x.slope * y.value - x.value * y.slope) / (y.value * y.value)⟩

/-- How often the second number is taken away does not change. -/
def remainder (x y : Dual) : Dual :=
  ⟨Literal.modulo x.value y.value, x.slope - Rational.truncate (x.value / y.value) * y.slope⟩

/-- The power of the size of the base, for a whole exponent that does not change. -/
def power (x y : Dual) : Dual :=
  ⟨RealFunctions.power x.value y.value,
    if y.value = 0 then 0
    else y.value * |x.value| ^ (y.value.num - 1) * Literal.sign x.value * x.slope⟩

end Dual

/-- Conditions look at values. Of the functions of one argument only the size is not flat. -/
instance : Scalar Dual ℚ where
  add x y := ⟨x.value + y.value, x.slope + y.slope⟩
  sub x y := ⟨x.value - y.value, x.slope - y.slope⟩
  mul x y := ⟨x.value * y.value, x.slope * y.value + x.value * y.slope⟩
  neg x := ⟨-x.value, -x.slope⟩
  beq x y := x.value == y.value
  domain := "dual"
  ordered := true
  ofReal := .fixed
  real x := x.value
  safeDivide := Dual.divide
  power := Dual.power
  modulo := Dual.remainder
  fuzzyEquals x y tolerances :=
    Literal.fuzzyEquals x.value y.value tolerances.relative tolerances.absolute
  compare op x y := Literal.compare op x.value y.value
  elementary f x :=
    ⟨RealFunctions.elementary f x.value, if f = .abs then Literal.sign x.value * x.slope else 0⟩

namespace Dual

@[simp] theorem ofReal_eq (x : ℚ) : (Scalar.ofReal x : Dual) = .fixed x := rfl

@[simp] theorem neg_eq (x : Dual) : -x = ⟨-x.value, -x.slope⟩ := rfl

@[simp] theorem add_eq (x y : Dual) : x + y = ⟨x.value + y.value, x.slope + y.slope⟩ := rfl

@[simp] theorem sub_eq (x y : Dual) : x - y = ⟨x.value - y.value, x.slope - y.slope⟩ := rfl

@[simp] theorem mul_eq (x y : Dual) :
    x * y = ⟨x.value * y.value, x.slope * y.value + x.value * y.slope⟩ := rfl

/-- Conditions look at the value. -/
@[simp] theorem isTrue_eq (x : Dual) : Scalar.isTrue x = Scalar.isTrue x.value := rfl

/-- A flag does not change. -/
theorem apply_logical {op : BinaryOp} (hop : op.isLogical = true) (tolerances : Tolerances ℚ)
    (x y : Dual) : ∃ flag : ℚ, op.apply tolerances x.value y.value = .ok flag ∧
      op.apply tolerances x y = .ok (.fixed flag) := by
  cases op with
  | add | sub | mul | div | mod | pow => exact nomatch hop
  | _ => exact ⟨_, rfl, rfl⟩

end Dual

/-! ## Ordinary points -/

/-- Without a fudge a quotient is exact, away from the denominator zero. -/
theorem safeDivide_of_ne_zero {y : ℚ} (hy : y ≠ 0) (x : ℚ) : Literal.safeDivide x y 0 = x / y := by
  have hadjusted : Literal.pushAway y 0 = y := by
    unfold Literal.pushAway
    split <;> simp
  unfold Literal.safeDivide
  rw [hadjusted]
  exact if_neg (by simpa using hy)

/-- The short cuts for small exponents do not change a power. -/
theorem power_natCast (x : ℚ) (n : ℕ) : RealFunctions.power x (n : ℚ) = |x| ^ n := by
  unfold RealFunctions.power
  by_cases h0 : n = 0
  · simp [h0]
  by_cases h1 : n = 1
  · subst h1
    simp
    rfl
  by_cases h2 : n = 2
  · subst h2
    norm_num
    exact (sq x).symm
  · have h2' : (n : ℚ) ≠ 2.0 := by
      norm_num
      exact_mod_cast h2
    rw [if_neg (by simpa using h0), if_neg (by simpa using h1), if_neg (by simpa using h2')]
    show (if (n : ℚ).den = 1 then |x| ^ (n : ℚ).num else _) = _
    simp

theorem sign_mul_abs (x : ℚ) : |x| * Literal.sign x = x := by
  unfold Literal.sign
  rcases lt_trichotomy x 0 with hx | rfl | hx
  · simp [hx, hx.not_gt, abs_of_neg]
  · simp
  · simp [hx, abs_of_pos]

/-- The slope of a power with a whole exponent; there is none for the exponent zero. -/
theorem Dual.power_slope (x : Dual) (n : ℕ) :
    (Dual.power x (.fixed n)).slope =
      n * |x.value| ^ (n - 1) * Literal.sign x.value * x.slope := by
  unfold Dual.power Dual.fixed
  cases n with
  | zero => simp
  | succ m =>
    have hne : ((m + 1 : ℕ) : ℚ) ≠ 0 := by exact_mod_cast m.succ_ne_zero
    have hnum : ((m + 1 : ℕ) : ℚ).num - 1 = (m : ℤ) := by
      rw [Rat.num_natCast]
      push_cast
      ring
    simp only [if_neg hne, hnum, zpow_natCast, Nat.add_sub_cancel]

/-- Cutting off rounds the size down and keeps the sign. -/
theorem sign_mul_floor_abs (x : ℚ) :
    Literal.sign x * (⌊|x|⌋ : ℚ) = Rational.truncate x := by
  unfold Literal.sign Rational.truncate
  rcases lt_trichotomy x 0 with hx | rfl | hx
  · simp [hx, hx.not_gt, hx.not_ge, abs_of_neg, Int.floor_neg]
  · simp
  · simp [hx, hx.le, abs_of_pos]

end CircuitExpr
