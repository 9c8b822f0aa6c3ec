import Mathlib
import CircuitExpr.Proofs.Evaluation.Decisions

/-!
# Operators on the real axis

In exact arithmetic the operators of the complex domain take real numbers to the real numbers that
the operators of the real domain take them to. This is so for every operator but the orderings,
which the complex domain lacks, with two provisos: a remainder needs a divisor that is not zero,
and a power that is taken by the general formula needs this formula to be right.

A quotient needs nothing: a denominator that is zero after the fudge has been added is found in
both domains, and in both of them the quotient is the infinity.

## Main statements

* `RealFunctions.Exact` — numbers are calculated with as in an ordered field
* `Decision.Ordinary` — the two provisos
* `UnaryOp.apply_ofReal`, `BinaryOp.apply_ofReal` — operators on real numbers
* `exact_real` — the real numbers are exact
-/

namespace CircuitExpr

open CircuitExpr.Complex (ofReal)

variable {K F : Type}

/-! ## Exact arithmetic -/

/--
Numbers are calculated with as their values are in an ordered field, and have different values. A
remainder is what is left after taking away a whole multiple, in whichever way quotients are cut
off to whole numbers, and a vector along the first axis is as long as its component is large.
-/
structure RealFunctions.Exact [RealFunctions K] [Field F] [LinearOrder F] [IsStrictOrderedRing F]
    (value : K → F) (truncate : F → F) : Prop where
  injective : Function.Injective value
  zero : value 0 = 0
  one : value 1 = 1
  add : ∀ x y, value (x + y) = value x + value y
  sub : ∀ x y, value (x - y) = value x - value y
  mul : ∀ x y, value (x * y) = value x * value y
  neg : ∀ x, value (-x) = -value x
  div : ∀ x y, value y ≠ 0 → value (x / y) = value x / value y
  beq_iff : ∀ x y : K, (x == y) = true ↔ x = y
  le_iff : ∀ x y, x ≤ y ↔ value x ≤ value y
  abs : ∀ x, value (Literal.abs x) = |value x|
  modulo : ∀ x y, value y ≠ 0 →
    value (Literal.modulo x y) = value x - truncate (value x / value y) * value y
  truncate_zero : truncate 0 = 0
  hypot_zero : ∀ x : K, RealFunctions.hypot x 0 = Literal.abs x

namespace RealFunctions.Exact

variable [RealFunctions K] [Field F] [LinearOrder F] [IsStrictOrderedRing F] {value : K → F}
  {truncate : F → F}

theorem value_ne_zero (h : Exact value truncate) {x : K} (hx : x ≠ 0) : value x ≠ 0 :=
  fun hzero => hx (h.injective (hzero.trans h.zero.symm))

theorem beq_zero_self (h : Exact value truncate) : ((0 : K) == 0) = true :=
  (h.beq_iff 0 0).mpr rfl

/-! ### Arithmetic on the real axis -/

variable (h : Exact value truncate) (x y : K)

include h

theorem ofReal_add : ofReal x + ofReal y = ofReal (x + y) := by
  have him : (0 + 0 : K) = 0 := h.injective (by rw [h.add, h.zero, add_zero])
  exact congrArg (Complex.mk (x + y)) him

theorem ofReal_sub : ofReal x - ofReal y = ofReal (x - y) := by
  have him : (0 - 0 : K) = 0 := h.injective (by rw [h.sub, h.zero, sub_zero])
  exact congrArg (Complex.mk (x - y)) him

theorem ofReal_neg : -ofReal x = ofReal (-x) := by
  have him : (-0 : K) = 0 := h.injective (by rw [h.neg, h.zero, neg_zero])
  exact congrArg (Complex.mk (-x)) him

theorem ofReal_mul : ofReal x * ofReal y = ofReal (x * y) := by
  have hre : x * y - 0 * 0 = x * y := h.injective (by simp only [h.sub, h.mul, h.zero]; ring)
  have him : x * 0 + 0 * y = 0 := h.injective (by simp only [h.add, h.mul, h.zero]; ring)
  exact congrArg₂ Complex.mk hre him

theorem ofReal_div (hy : y ≠ 0) : ofReal x / ofReal y = ofReal (x / y) := by
  have hvalue := h.value_ne_zero hy
  have hsize : value (y * y + 0 * 0) = value y * value y := by
    simp only [h.add, h.mul, h.zero]
    ring
  have hsize_ne : value (y * y + 0 * 0) ≠ 0 := hsize ▸ mul_ne_zero hvalue hvalue
  have hre : (x * y + 0 * 0) / (y * y + 0 * 0) = x / y := by
    apply h.injective
    rw [h.div _ _ hsize_ne, h.div _ _ hvalue, hsize, h.add, h.mul, h.mul, h.zero, mul_zero,
      add_zero, mul_div_mul_right _ _ hvalue]
  have him : (0 * y - x * 0) / (y * y + 0 * 0) = 0 := by
    apply h.injective
    rw [h.div _ _ hsize_ne]
    simp only [h.sub, h.mul, h.zero, zero_mul, mul_zero, sub_zero, zero_div]
  exact congrArg₂ Complex.mk hre him

/-- The denominator is moved away from zero in the same way, and what is zero then is found. -/
theorem ofReal_safeDivide (fudge : K) :
    (ofReal x).safeDivide (ofReal y) fudge = ofReal (Literal.safeDivide x y fudge) := by
  unfold Complex.safeDivide Literal.safeDivide
  have hzero : ((ofReal y).im == 0) = true := h.beq_zero_self
  simp only [hzero, Bool.and_true]
  show (if (Literal.pushAway y fudge == 0) = true then _ else _) = ofReal (if _ then _ else _)
  split
  · rfl
  · next hne =>
    exact h.ofReal_div x _ fun heq => hne ((h.beq_iff _ _).mpr heq)

theorem modulo_zero_one : Literal.modulo (0 : K) 1 = 0 := by
  apply h.injective
  rw [h.modulo _ _ (by rw [h.one]; exact one_ne_zero)]
  simp only [h.zero, h.one, div_one, h.truncate_zero, zero_mul, sub_zero]

/-- The whole part of the quotient is taken away as often in both domains. -/
theorem ofReal_modulo (hy : y ≠ 0) :
    (ofReal x).modulo (ofReal y) = ofReal (Literal.modulo x y) := by
  have hone : value (1 : K) ≠ 0 := by
    rw [h.one]
    exact one_ne_zero
  have hvalue := h.value_ne_zero hy
  have hwhole : (0 : K) - Literal.modulo 0 1 = 0 := by
    apply h.injective
    rw [h.sub, h.modulo_zero_one, h.zero, sub_zero]
  have hleft : x - y * (x / y - Literal.modulo (x / y) 1) = Literal.modulo x y := by
    apply h.injective
    simp only [h.sub, h.mul, h.div _ _ hvalue, h.modulo _ _ hone, h.modulo _ _ hvalue, h.one,
      div_one]
    ring
  unfold Complex.modulo
  rw [h.ofReal_div x y hy]
  show ofReal x - ofReal y * ⟨x / y - Literal.modulo (x / y) 1, 0 - Literal.modulo 0 1⟩ = _
  rw [hwhole]
  show ofReal x - ofReal y * ofReal (x / y - Literal.modulo (x / y) 1) = _
  rw [h.ofReal_mul, h.ofReal_sub, hleft]

theorem ofReal_norm : (ofReal x).norm = Literal.abs x := h.hypot_zero x

/-- A real number is turned to its size. -/
theorem ofReal_reflect : (ofReal x).reflect = ofReal (Literal.abs x) := by
  have hsign : x ≥ 0 ↔ 0 ≤ value x := by
    rw [ge_iff_le, h.le_iff, h.zero]
  have habs : value (Literal.abs x) = |value x| := h.abs x
  unfold Complex.reflect
  split
  · next hx =>
    rw [abs_of_nonneg (hsign.mp hx)] at habs
    rw [h.injective habs]
  · next hx =>
    rw [abs_of_neg (not_le.mp (mt hsign.mpr hx)), ← h.neg] at habs
    rw [h.injective habs]
    exact h.ofReal_neg x

theorem ofReal_fuzzyEquals (tolerances : Tolerances K) :
    (ofReal x).fuzzyEquals (ofReal y) tolerances =
      Literal.fuzzyEquals x y tolerances.relative tolerances.absolute := by
  unfold Complex.fuzzyEquals Literal.fuzzyEquals
  simp only [h.ofReal_sub, h.ofReal_norm]

end RealFunctions.Exact

/-! ## Operators -/

variable [RealFunctions K]

/--
The operands of a remainder or a power are ordinary if the divisor is not zero, or the general
formula for complex powers gives the real power where it is asked for.
-/
def Decision.Ordinary : Decision K → Prop
  | .operands .mod _ y => y ≠ 0
  | .operands .pow x y => (y == 0) = false → (y == 1) = false → (y == 2.0) = false →
      (ofReal (Literal.abs x)).pow (ofReal y) = ofReal (RealFunctions.pow (Literal.abs x) y)
  | _ => True

variable [Field F] [LinearOrder F] [IsStrictOrderedRing F] {value : K → F} {truncate : F → F}

theorem UnaryOp.apply_ofReal (h : RealFunctions.Exact value truncate) (op : UnaryOp) (x : K) :
    op.apply (ofReal x) = ofReal (op.apply x) := by
  cases op with
  | plus | not => rfl
  | minus => exact h.ofReal_neg x

theorem RealFunctions.Exact.ofReal_power (h : RealFunctions.Exact value truncate) {x y : K}
    (hordinary : (Decision.operands .pow x y).Ordinary) :
    (ofReal x).power (ofReal y) = ofReal (RealFunctions.power x y) := by
  have hzero : ((ofReal y).im == 0) = true := h.beq_zero_self
  have hre : (ofReal y).re = y := rfl
  unfold Complex.power RealFunctions.power
  rw [hzero, hre, Bool.true_and, Bool.true_and, Bool.true_and]
  split
  · rfl
  · next hzero =>
    split
    · exact h.ofReal_reflect x
    · next hone =>
      split
      · exact h.ofReal_mul x x
      · next htwo =>
        rw [Bool.not_eq_true] at hzero hone htwo
        rw [h.ofReal_reflect]
        exact hordinary hzero hone htwo

/-- **Operators extend to the complex domain**, and so does what is noted down of them. -/
theorem BinaryOp.apply_ofReal (h : RealFunctions.Exact value truncate) {op : BinaryOp}
    (hop : op.isOrdering = false) (tolerances : Tolerances K) (x y : K)
    (hordinary : ∀ d ∈ op.decisions tolerances x y, d.Ordinary) :
    op.apply tolerances (ofReal x) (ofReal y) = (op.apply tolerances x y).map ofReal ∧
      op.decisions tolerances (ofReal x) (ofReal y) =
        (op.decisions tolerances x y).map (Decision.map ofReal) := by
  have hequals : Scalar.fuzzyEquals (ofReal x) (ofReal y) tolerances =
      Scalar.fuzzyEquals x y tolerances := h.ofReal_fuzzyEquals x y tolerances
  cases op with
  | lt | gt | le | ge => exact nomatch hop
  | add => exact ⟨congrArg Except.ok (h.ofReal_add x y), rfl⟩
  | sub => exact ⟨congrArg Except.ok (h.ofReal_sub x y), rfl⟩
  | mul => exact ⟨congrArg Except.ok (h.ofReal_mul x y), rfl⟩
  | div => exact ⟨congrArg Except.ok (h.ofReal_safeDivide x y _), rfl⟩
  | mod =>
    have hy : y ≠ 0 := hordinary _ List.mem_cons_self
    exact ⟨congrArg Except.ok (h.ofReal_modulo x y hy), rfl⟩
  | pow =>
    exact ⟨congrArg Except.ok (h.ofReal_power (hordinary _ List.mem_cons_self)), rfl⟩
  | eq | ne =>
    simp only [BinaryOp.apply, BinaryOp.decisions, hequals]
    exact ⟨rfl, rfl⟩
  | and | or | xor => exact ⟨rfl, rfl⟩

/-! ## The real numbers -/

/-- Cutting off towards zero. -/
noncomputable def truncateReal (x : ℝ) : ℝ := if 0 ≤ x then ⌊x⌋ else ⌈x⌉

/-- Real numbers. None is above all others or stands for what has no value, nor is any written. -/
noncomputable instance : Literal ℝ where
  beq x y := decide (x = y)
  decidableLT := inferInstance
  decidableLE := inferInstance
  abs x := |x|
  modulo x y := x - truncateReal (x / y) * y
  infinity := 0
  undefined := 0
  text _ := ""

noncomputable instance : RealFunctions ℝ where
  sqrt := Real.sqrt
  exp := Real.exp
  ln := Real.log
  log10 x := Real.log x / Real.log 10
  sin := Real.sin
  cos := Real.cos
  tan := Real.tan
  asin := Real.arcsin
  acos := Real.arccos
  atan := Real.arctan
  sinh := Real.sinh
  cosh := Real.cosh
  tanh := Real.tanh
  floor x := ⌊x⌋
  ceil x := ⌈x⌉
  round x := if 0 ≤ x then ⌊x + 1 / 2⌋ else ⌈x - 1 / 2⌉
  pow x y := x ^ y
  hypot x y := √(x ^ 2 + y ^ 2)
  atan2 y x := (⟨x, y⟩ : ℂ).arg
  signBit x := x < 0
  isInfinite _ := false
  isFinite _ := true
  isUndefined _ := false

/-- **Real numbers are exact.** -/
theorem exact_real : RealFunctions.Exact (id : ℝ → ℝ) truncateReal where
  injective := Function.injective_id
  zero := rfl
  one := rfl
  add _ _ := rfl
  sub _ _ := rfl
  mul _ _ := rfl
  neg _ := rfl
  div _ _ _ := rfl
  beq_iff _ _ := decide_eq_true_iff
  le_iff _ _ := Iff.rfl
  abs _ := rfl
  modulo _ _ _ := rfl
  truncate_zero := by simp [truncateReal]
  hypot_zero x := by
    show √(x ^ 2 + 0 ^ 2) = |x|
    rw [zero_pow two_ne_zero, add_zero, Real.sqrt_sq_eq_abs]

/-- The general formula for powers is right for a base above zero. -/
theorem pow_ofReal_of_pos {x : ℝ} (hx : 0 < x) (y : ℝ) :
    (ofReal x).pow (ofReal y) = ofReal (RealFunctions.pow x y) := by
  have hnorm : (ofReal x).norm = x := (exact_real.ofReal_norm x).trans (abs_of_pos hx)
  have harg : (ofReal x).arg = 0 := Complex.arg_ofReal_of_nonneg hx.le
  have hln : (ofReal x).ln = ofReal (Real.log x) := by
    unfold Complex.ln
    rw [hnorm, harg]
    rfl
  have hpow : RealFunctions.pow x y = Real.exp (y * Real.log x) := by
    show x ^ y = _
    rw [Real.rpow_def_of_pos hx, mul_comm]
  unfold Complex.pow
  split
  · next hzero =>
    obtain rfl : y = 0 := of_decide_eq_true (Bool.and_eq_true_iff.mp hzero).1
    rw [hpow, zero_mul, Real.exp_zero]
    rfl
  · rw [hln, exact_real.ofReal_mul, hpow]
    -- nothing is infinite or undefined here, so that the polar form is taken
    show (⟨Real.exp (y * Real.log x) * Real.cos 0, Real.exp (y * Real.log x) * Real.sin 0⟩ :
      CircuitExpr.Complex ℝ) = _
    rw [Real.cos_zero, Real.sin_zero, mul_one, mul_zero]
    rfl

end CircuitExpr
