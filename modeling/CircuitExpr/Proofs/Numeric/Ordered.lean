import Mathlib
import CircuitExpr.Proofs.Numeric.Exact

/-!
# Ordered arithmetic

Selections compare numbers in two ways: by their order, and by the sign of their difference, which
is what a derivative can be written with. `Literal.Ordered` says that both are the order of the
values that finite numbers have in an ordered group, and that zero and one are calculated with as
flags. A domain takes this over from its real parts: `Scalar.Ordered`.

## Main statements

* `Literal.ordered_rational` — exact numbers are ordered
* `Scalar.ordered_real`, `Scalar.ordered_complex` — and so are the domains over ordered numbers
-/

namespace CircuitExpr

variable {K F : Type}

/--
Finite numbers have values in an ordered group. They are compared as their values are, and the sign
of a difference is right. Zero and one are calculated with as flags.
-/
structure Literal.Ordered [Literal K] [AddCommGroup F] [LinearOrder F]
    (finite : K → Prop) (value : K → F) : Prop where
  lt_iff : ∀ x y, finite x → finite y → (x < y ↔ value x < value y)
  le_iff : ∀ x y, finite x → finite y → (x ≤ y ↔ value x ≤ value y)
  sub_pos_iff : ∀ x y, finite x → finite y → (0 < x - y ↔ value y < value x)
  finite_zero : finite 0
  value_zero : value 0 = 0
  value_of_beq : ∀ x, finite x → (x == 0) = true → value x = 0
  finite_neg : ∀ x, finite (-x) ↔ finite x
  value_neg : ∀ x, finite x → value (-x) = -value x
  one_ne_zero : ((1 : K) == 0) = false
  zero_ne_one : ((0 : K) == 1) = false
  ofBool_mul : ∀ p q, (Literal.ofBool p * Literal.ofBool q : K) = Literal.ofBool (p && q)
  one_sub_ofBool : ∀ p, (1 - Literal.ofBool p : K) = Literal.ofBool (!p)
  ofBool_sub_zero : ∀ p, (Literal.ofBool p - 0 : K) = Literal.ofBool p
  zero_add_zero : (0 + 0 : K) = 0

/-- **Exact numbers are ordered.** -/
theorem Literal.ordered_rational : Literal.Ordered (fun _ : ℚ => True) id where
  lt_iff _ _ _ _ := Iff.rfl
  le_iff _ _ _ _ := Iff.rfl
  sub_pos_iff _ _ _ _ := sub_pos
  finite_zero := trivial
  value_zero := rfl
  value_of_beq _ _ h := eq_of_beq h
  finite_neg _ := Iff.rfl
  value_neg _ _ := rfl
  one_ne_zero := by decide
  zero_ne_one := by decide
  ofBool_mul p q := by cases p <;> cases q <;> simp [Literal.ofBool]
  one_sub_ofBool p := by cases p <;> simp [Literal.ofBool]
  ofBool_sub_zero _ := sub_zero _
  zero_add_zero := add_zero _

/-- The domain is calculated with as its real parts are, and with flags as the numbers are. -/
structure Scalar.Ordered (D : Type) {K : Type} [Literal K] [Scalar D K] : Prop where
  ofReal_injective : Function.Injective (Scalar.ofReal : K → D)
  real_ofReal : ∀ x : K, Scalar.real (Scalar.ofReal x : D) = x
  real_sub : ∀ x y : D, Scalar.real (x - y) = Scalar.real x - Scalar.real y
  real_neg : ∀ x : D, Scalar.real (-x) = -Scalar.real x
  step : ∀ x : D, Scalar.elementary .step x = Scalar.ofBool (decide (Scalar.real x > 0))
  ofBool_mul : ∀ p q, (Scalar.ofBool p * Scalar.ofBool q : D) = Scalar.ofBool (p && q)
  one_sub_ofBool : ∀ p, (Scalar.ofReal 1 - Scalar.ofBool p : D) = Scalar.ofBool (!p)

namespace Scalar

variable [RealFunctions K] [AddCommGroup F] [LinearOrder F] {finite : K → Prop} {value : K → F}

theorem ordered_real (h : Literal.Ordered finite value) : Scalar.Ordered K where
  ofReal_injective := Function.injective_id
  real_ofReal _ := rfl
  real_sub _ _ := rfl
  real_neg _ := rfl
  step _ := rfl
  ofBool_mul := h.ofBool_mul
  one_sub_ofBool := h.one_sub_ofBool

/-- Flags are real numbers, so that their imaginary parts stay zero. -/
theorem ordered_complex (h : Literal.Ordered finite value) : Scalar.Ordered (Complex K) where
  ofReal_injective _ _ hxy := congrArg Complex.re hxy
  real_ofReal _ := rfl
  real_sub _ _ := rfl
  real_neg _ := rfl
  step _ := rfl
  ofBool_mul p q := by
    have hfalse : (Literal.ofBool false : K) = 0 := rfl
    have hre : (Literal.ofBool p * Literal.ofBool q - 0 * 0 : K) = Literal.ofBool (p && q) := by
      rw [h.ofBool_mul, ← hfalse, h.ofBool_mul]
      exact h.ofBool_sub_zero _
    have him : (Literal.ofBool p * 0 + 0 * Literal.ofBool q : K) = 0 := by
      rw [← hfalse, h.ofBool_mul, h.ofBool_mul, Bool.and_false, Bool.false_and]
      exact h.zero_add_zero
    exact congrArg₂ Complex.mk hre him
  one_sub_ofBool p := congrArg₂ Complex.mk (h.one_sub_ofBool p) (h.ofBool_sub_zero false)

end Scalar

end CircuitExpr
