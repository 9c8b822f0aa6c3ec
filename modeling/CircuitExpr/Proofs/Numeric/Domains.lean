import Mathlib
import CircuitExpr.Proofs.Numeric.Alike
import CircuitExpr.Proofs.Simplify.Similar

/-!
# The two domains over doubles

The operations of the real domain take alike doubles to alike doubles, and those of the complex
domain do so part by part. Powers are an exception in the complex domain: they are computed by
functions of the platform about which nothing is known here.

## Main statements

* `alike_similarity`, `alike_powerRespects`, `alike_neutralZero`, `alike_neutralOne` — the real
  domain
* `alikeParts_similarity`, `alikeParts_neutralZero`, `alikeParts_writable` — the complex domain
* `alikeParts_mul_one`, `alikeParts_one_mul` — one is neutral for finite complex numbers only
-/

namespace CircuitExpr

open Binary64 Literal

/-! ## Operations on real numbers -/

namespace Binary64

variable {x x' y y' : Float}

/-- What does not tell the two zeros apart does not tell alike doubles apart. -/
theorem Alike.eq_of_zeros {α : Type} (h : Alike x x') {f : Float → α}
    (zero : ∀ s t, f (packed (.zero s)) = f (packed (.zero t))) : f x = f x' := by
  have hparts := h.congr (f := fun u => f (packed u)) zero
  rwa [packed_unpacked, packed_unpacked] at hparts

/-- After adding a zero no sign of a zero is left to tell. -/
theorem Alike.add_zero_eq (hx : Alike x x') : x + 0 = x' + 0 :=
  hx.eq_of_zeros (f := fun a => a + 0) fun s t => by cases s <;> cases t <;> rfl

theorem Alike.larger (hx : Alike x x') (hy : Alike y y') :
    Alike (larger x y) (larger x' y') := by
  have hless : (x < y) = (x' < y') := propext (hx.lt_iff hy)
  unfold Literal.larger
  simp only [hx.beq_eq hx, hless]
  split
  · exact hy
  · exact hx

theorem Alike.pushAway (hx : Alike x x') (fudge : Float) :
    Alike (pushAway x fudge) (pushAway x' fudge) := by
  have hsign : (x ≥ 0) = (x' ≥ 0) := propext ((Alike.refl 0).le_iff hx)
  unfold Literal.pushAway
  simp only [hsign]
  split
  · exact hx.add (.refl _)
  · exact hx.sub (.refl _)

theorem Alike.safeDivide (hx : Alike x x') (hy : Alike y y') (fudge : Float) :
    Alike (safeDivide x y fudge) (safeDivide x' y' fudge) := by
  have hadjusted := hy.pushAway fudge
  unfold Literal.safeDivide
  simp only [hadjusted.beq_eq (.refl 0)]
  split
  · exact .refl _
  · -- the divisor is not zero, and alike divisors that are not zero are the same
    next hzero =>
    rw [← hadjusted.beq_eq (.refl 0)] at hzero
    rw [hadjusted.eq_of_ne_zero (Bool.eq_false_iff.mpr hzero)]
    exact hx.div _

theorem Alike.remainder (hx : Alike x x') (hy : Alike y y') :
    Alike (remainder x y) (remainder x' y') := by
  unfold CircuitExpr.remainder
  rw [hx.isNaN_eq, hy.isNaN_eq, hx.isInf_eq, hy.isInf_eq, hx.beq_eq (.refl 0),
    hy.beq_eq (.refl 0)]
  split
  · exact .refl _
  · next hdivisor =>
    split
    · exact hx
    · next hdividend =>
      simp only [Bool.or_eq_true, not_or, Bool.not_eq_true] at hdivisor hdividend
      rw [hx.eq_of_ne_zero ((hx.beq_eq (.refl 0)).trans hdividend.2),
        hy.eq_of_ne_zero ((hy.beq_eq (.refl 0)).trans hdivisor.2)]
      exact .refl _

theorem Alike.hypotenuse_eq (hx : Alike x x') (hy : Alike y y') :
    hypotenuse x y = hypotenuse x' y' := by
  have hleft : hypotenuse x y = hypotenuse x' y :=
    hx.eq_of_zeros (f := fun a => hypotenuse a y) fun s t => by cases s <;> cases t <;> rfl
  have hright : hypotenuse x' y = hypotenuse x' y' :=
    hy.eq_of_zeros (f := fun b => hypotenuse x' b) fun s t => by cases s <;> cases t <;> rfl
  exact hleft.trans hright

theorem Alike.fuzzyEquals_eq (hx : Alike x x') (hy : Alike y y') (relative absolute : Float) :
    fuzzyEquals x y relative absolute = fuzzyEquals x' y' relative absolute := by
  have hdifference : Float.abs (x - y) = Float.abs (x' - y') := (hx.sub hy).abs_eq
  have habs : Float.abs x = Float.abs x' := hx.abs_eq
  have habs' : Float.abs y = Float.abs y' := hy.abs_eq
  show decide (Float.abs (x - y) ≤
      Literal.larger (relative * Literal.larger (Float.abs x) (Float.abs y)) absolute) =
    decide (Float.abs (x' - y') ≤
      Literal.larger (relative * Literal.larger (Float.abs x') (Float.abs y')) absolute)
  rw [hdifference, habs, habs']

theorem Alike.power (hx : Alike x x') (hy : Alike y y') :
    Alike (RealFunctions.power x y) (RealFunctions.power x' y') := by
  have habs : Float.abs x = Float.abs x' := hx.abs_eq
  show Alike
    (if y == 0 then 1 else if y == 1 then Float.abs x else if y == 2.0 then x * x
      else Float.pow (Float.abs x) y)
    (if y' == 0 then 1 else if y' == 1 then Float.abs x' else if y' == 2.0 then x' * x'
      else Float.pow (Float.abs x') y')
  rw [hy.beq_eq (.refl 0), hy.beq_eq (.refl 1), hy.beq_eq (.refl 2.0), habs, hx.mul_self_eq]
  split
  · exact .refl _
  · next hzero =>
    rw [← hy.beq_eq (.refl 0)] at hzero
    rw [hy.eq_of_ne_zero (Bool.eq_false_iff.mpr hzero)]
    exact .refl _

end Binary64

/-! ## The real domain -/

theorem alike_similarity : Scalar.Similarity Alike where
  equivalence := alike_equivalence
  neg h := h.neg
  add h h' := h.add h'
  sub h h' := h.sub h'
  mul h h' := h.mul h'
  safeDivide fudge h h' := h.safeDivide h' fudge
  modulo h h' := h.remainder h'
  isTrue h := decide_eq_decide.mpr ((Alike.refl _).lt_iff h)
  fuzzyEquals tolerances h h' := h.fuzzyEquals_eq h' _ _
  compare {op} _ _ _ _ _ h h' := by
    cases op with
    | lt => exact congrArg Except.ok (decide_eq_decide.mpr (h.lt_iff h'))
    | gt => exact congrArg Except.ok (decide_eq_decide.mpr (h'.lt_iff h))
    | le => exact congrArg Except.ok (decide_eq_decide.mpr (h.le_iff h'))
    | ge => exact congrArg Except.ok (decide_eq_decide.mpr (h'.le_iff h))
    | _ => rfl

theorem alike_powerRespects : Scalar.PowerRespects Alike :=
  fun _ _ _ _ h h' => h.power h'

theorem alike_neutralZero : Scalar.NeutralZero Alike where
  add_zero _ x hz := alike_add_zero hz x
  zero_add _ x hz := alike_zero_add hz x
  sub_zero _ x hz := alike_sub_zero hz x

/-- The only double that equals one is one. -/
theorem eq_one_of_beq {u : Float} (h : (u == 1) = true) : u = 1 :=
  eq_of_beq_of_ne h rfl

theorem alike_neutralOne : Scalar.NeutralOne Alike where
  mul_one _ x hu := .inl (eq_one_of_beq hu ▸ mul_one_eq x)
  one_mul _ x hu := .inl (eq_one_of_beq hu ▸ one_mul_eq x)

/-! ## The complex domain -/

/-- The same complex number, but for the signs of zeros in its parts. -/
structure AlikeParts (z w : Complex Float) : Prop where
  re : Alike z.re w.re
  im : Alike z.im w.im

namespace AlikeParts

theorem equivalence : Equivalence AlikeParts where
  refl _ := ⟨.refl _, .refl _⟩
  symm h := ⟨alike_equivalence.symm h.re, alike_equivalence.symm h.im⟩
  trans h h' := ⟨alike_equivalence.trans h.re h'.re, alike_equivalence.trans h.im h'.im⟩

variable {z z' w w' : Complex Float}

theorem refl (z : Complex Float) : AlikeParts z z := equivalence.refl z

theorem add (hz : AlikeParts z z') (hw : AlikeParts w w') : AlikeParts (z + w) (z' + w') :=
  ⟨hz.re.add hw.re, hz.im.add hw.im⟩

theorem sub (hz : AlikeParts z z') (hw : AlikeParts w w') : AlikeParts (z - w) (z' - w') :=
  ⟨hz.re.sub hw.re, hz.im.sub hw.im⟩

theorem mul (hz : AlikeParts z z') (hw : AlikeParts w w') : AlikeParts (z * w) (z' * w') :=
  ⟨(hz.re.mul hw.re).sub (hz.im.mul hw.im), (hz.re.mul hw.im).add (hz.im.mul hw.re)⟩

/-- The squared length of the divisor has no sign to lose. -/
theorem div (hz : AlikeParts z z') (hw : AlikeParts w w') : AlikeParts (z / w) (z' / w') := by
  have hsize : w.re * w.re + w.im * w.im = w'.re * w'.re + w'.im * w'.im := by
    rw [hw.re.mul_self_eq, hw.im.mul_self_eq]
  have hre := (hz.re.mul hw.re).add (hz.im.mul hw.im)
  have him := (hz.im.mul hw.re).sub (hz.re.mul hw.im)
  refine ⟨?_, ?_⟩
  · show Alike (_ / (w.re * w.re + w.im * w.im)) (_ / (w'.re * w'.re + w'.im * w'.im))
    rw [hsize]
    exact hre.div _
  · show Alike (_ / (w.re * w.re + w.im * w.im)) (_ / (w'.re * w'.re + w'.im * w'.im))
    rw [hsize]
    exact him.div _

theorem safeDivide (hz : AlikeParts z z') (hw : AlikeParts w w') (fudge : Float) :
    AlikeParts (z.safeDivide w fudge) (z'.safeDivide w' fudge) := by
  have hadjusted : AlikeParts ⟨pushAway w.re fudge, w.im⟩ ⟨pushAway w'.re fudge, w'.im⟩ :=
    ⟨hw.re.pushAway fudge, hw.im⟩
  unfold Complex.safeDivide
  simp only [hadjusted.re.beq_eq (.refl 0), hw.im.beq_eq (.refl 0)]
  split
  · exact refl _
  · exact hz.div hadjusted

theorem modulo (hz : AlikeParts z z') (hw : AlikeParts w w') :
    AlikeParts (z.modulo w) (z'.modulo w') := by
  have hq := hz.div hw
  have hwhole : AlikeParts
      ⟨(z / w).re - Literal.modulo (z / w).re 1, (z / w).im - Literal.modulo (z / w).im 1⟩
      ⟨(z' / w').re - Literal.modulo (z' / w').re 1,
        (z' / w').im - Literal.modulo (z' / w').im 1⟩ :=
    ⟨hq.re.sub (hq.re.remainder (.refl 1)), hq.im.sub (hq.im.remainder (.refl 1))⟩
  exact hz.sub (hw.mul hwhole)

/-- After adding a zero no sign of a zero is left to tell. -/
theorem add_zero_eq (z z' : Complex Float) (hz : AlikeParts z z') :
    z + Scalar.ofReal (0 : Float) = z' + Scalar.ofReal (0 : Float) :=
  congrArg₂ Complex.mk hz.re.add_zero_eq hz.im.add_zero_eq

theorem norm_eq (hz : AlikeParts z z') : z.norm = z'.norm := hz.re.hypotenuse_eq hz.im

theorem fuzzyEquals_eq (hz : AlikeParts z z') (hw : AlikeParts w w')
    (tolerances : Tolerances Float) :
    z.fuzzyEquals w tolerances = z'.fuzzyEquals w' tolerances := by
  simp only [Complex.fuzzyEquals, (hz.sub hw).norm_eq, hz.norm_eq, hw.norm_eq]

end AlikeParts

theorem alikeParts_similarity : Scalar.Similarity AlikeParts where
  equivalence := AlikeParts.equivalence
  neg h := ⟨h.re.neg, h.im.neg⟩
  add h h' := h.add h'
  sub h h' := h.sub h'
  mul h h' := h.mul h'
  safeDivide fudge h h' := h.safeDivide h' fudge
  modulo h h' := h.modulo h'
  isTrue h := decide_eq_decide.mpr ((Alike.refl _).lt_iff h.re)
  fuzzyEquals tolerances h h' := h.fuzzyEquals_eq h' tolerances
  compare _ _ _ := rfl

theorem alikeParts_neutralZero : Scalar.NeutralZero AlikeParts where
  add_zero _ x hz := ⟨alike_add_zero hz x.re, alike_add_zero (z := 0) rfl x.im⟩
  zero_add _ x hz := ⟨alike_zero_add hz x.re, alike_zero_add (z := 0) rfl x.im⟩
  sub_zero _ x hz := ⟨alike_sub_zero hz x.re, alike_sub_zero (z := 0) rfl x.im⟩

/-- Both parts are finite. -/
structure FiniteParts (z : Complex Float) : Prop where
  re : z.re.isFinite = true
  im : z.im.isFinite = true

/-- A finite number is multiplied by a real number part by part. -/
theorem alikeParts_mul_ofReal {z : Complex Float} (hz : FiniteParts z) (u : Float) :
    AlikeParts (z * Scalar.ofReal u) ⟨z.re * u, z.im * u⟩ :=
  ⟨alike_sub_zero (mul_zero_beq hz.im) _, alike_zero_add (mul_zero_beq hz.re) _⟩

theorem alikeParts_ofReal_mul {z : Complex Float} (hz : FiniteParts z) (u : Float) :
    AlikeParts (Scalar.ofReal u * z) ⟨u * z.re, u * z.im⟩ :=
  ⟨alike_sub_zero (zero_mul_beq hz.im) _, alike_add_zero (zero_mul_beq hz.re) _⟩

/-- A finite number does not change when it is multiplied by one; an infinite part would. -/
theorem alikeParts_mul_one {z : Complex Float} (hz : FiniteParts z) :
    AlikeParts (z * Scalar.ofReal (1 : Float)) z := by
  have hproducts := alikeParts_mul_ofReal hz 1
  rwa [mul_one_eq, mul_one_eq] at hproducts

theorem alikeParts_one_mul {z : Complex Float} (hz : FiniteParts z) :
    AlikeParts (Scalar.ofReal (1 : Float) * z) z := by
  have hproducts := alikeParts_ofReal_mul hz 1
  rwa [one_mul_eq, one_mul_eq] at hproducts

/-- What equals its real part has an imaginary part that is zero, of whatever sign. -/
theorem alikeParts_writable : Scalar.Writable AlikeParts := by
  intro z h
  have h : (z.re == z.re && (0 : Float) == z.im) = true := h
  rw [Bool.and_eq_true] at h
  exact ⟨.refl _, alike_equivalence.symm (alike_of_beq h.2)⟩

end CircuitExpr
