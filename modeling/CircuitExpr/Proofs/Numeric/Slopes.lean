import Mathlib
import CircuitExpr.Proofs.Numeric.Zeros

/-!
# Numbers in slopes of powers

The slope of a power is a product with a sign, and with the exponents zero, one and two it is
written in more than one way. What the ways have in common is gathered in `Scalar.Slopes`, for a
relation of numbers that are the same but for the signs of zeros.

A power takes the size of its base. Among complex numbers that is the number or its negative, and
a number on the imaginary axis has no sign to make up for that: there twice the size times the sign
is zero, and not twice the number.

## Main statements

* `Scalar.Slopes` — products with zeros, ones and signs, and the slope of a square
* `alike_slopes`, `alikeParts_slopes` — the two domains over doubles
-/

namespace CircuitExpr

open Binary64 Literal

namespace Scalar

variable {D : Type} [Scalar D Float]

/-- The slope of a power by its base, with the sign that the size of the base has lost. -/
def powerFactor (x : D) (exponent : Float) : D :=
  ofReal exponent * power x (ofReal (exponent - 1)) * elementary .sgn x

/--
Slopes can be computed with. `Doubles` says where twice a number can be trusted to be finite, and
`Turned` which numbers have no sign although they are not zero.
-/
structure Slopes (V : D → D → Prop) (Finite Doubles Turned : D → Prop) : Prop where
  similarity : Similarity V
  isTrue_ofBool : ∀ flag, (isTrue (ofBool flag : D) : Bool) = flag
  ofReal_zero_iff : ∀ {u : Float}, V (ofReal u) (ofReal 0) ↔ (u == 0) = true
  finite_ofReal_iff : ∀ {u : Float}, Finite (ofReal u) ↔ u.isFinite = true
  mul_zero_iff : ∀ {x}, V (x * ofReal 0) (ofReal 0) ↔ Finite x
  zero_mul : ∀ {x}, Finite x → V (ofReal 0 * x) (ofReal 0)
  finite_sign : ∀ x, Finite (elementary .sgn x)
  power_zero : ∀ x : D, power x (ofReal 0) = ofReal 1
  one_mul_sign : ∀ x, V (ofReal 1 * elementary .sgn x) (elementary .sgn x)
  finite_double_iff : ∀ {u : Float}, u.isFinite = true →
    (Finite (ofReal 2.0 * ofReal u) ↔ (2.0 * u).isFinite = true)
  square : ∀ {x}, Finite x → Doubles x → ¬ Turned x → V (powerFactor x 2.0) (ofReal 2.0 * x)
  square_turned : ∀ {x}, Doubles x → Turned x → V (powerFactor x 2.0) (ofReal 0)

end Scalar

/-! ## The real domain -/

theorem sign_isFinite (x : Float) : (Literal.sign x).isFinite = true := by
  unfold Literal.sign
  split
  · rfl
  · split <;> rfl

theorem mul_zero_alike_iff {x : Float} : Alike (x * 0) 0 ↔ x.isFinite = true := by
  rw [alike_zero_iff, (zeroIf_mul_zero x (z := 0) rfl).beq_zero_eq]

/-- Real numbers all have the slope of a square, also where it overflows. -/
theorem alike_slopes :
    Scalar.Slopes Alike (fun x : Float => x.isFinite = true) (fun _ => True) (fun _ => False) where
  similarity := alike_similarity
  isTrue_ofBool flag := by cases flag <;> rfl
  ofReal_zero_iff := alike_zero_iff
  finite_ofReal_iff := Iff.rfl
  mul_zero_iff := mul_zero_alike_iff
  zero_mul hx := alike_zero (zero_mul_beq hx)
  finite_sign := sign_isFinite
  power_zero _ := rfl
  one_mul_sign _ := .inl (one_mul_eq _)
  finite_double_iff _ := Iff.rfl
  square hx _ _ := double_size_mul_sign hx
  square_turned _ := False.elim

/-! ## The complex domain -/

theorem finiteParts_ofReal {u : Float} (hu : u.isFinite = true) :
    FiniteParts (Scalar.ofReal u) := by
  have hzero : (0 : Float).isFinite = true := rfl
  exact ⟨hu, hzero⟩

theorem mul_zero_alikeParts_iff {z : Complex Float} :
    AlikeParts (z * Scalar.ofReal (0 : Float)) (Scalar.ofReal (0 : Float)) ↔ FiniteParts z := by
  have hre := (zeroIf_mul_zero z.re (z := 0) rfl).sub (zeroIf_mul_zero z.im (z := 0) rfl)
  have him := (zeroIf_mul_zero z.re (z := 0) rfl).add (zeroIf_mul_zero z.im (z := 0) rfl)
  constructor
  · intro h
    have hboth := hre.beq_zero_eq.symm.trans (alike_zero_iff.mp h.re)
    rw [Bool.and_eq_true] at hboth
    exact ⟨hboth.1, hboth.2⟩
  · intro h
    rw [h.re, h.im] at hre him
    exact ⟨alike_zero hre, alike_zero him⟩

/-- Twice the reflected number with the sign of its real part is twice the number. -/
theorem square_alikeParts {z : Complex Float} (hz : FiniteParts z)
    (hdouble : FiniteParts (Scalar.ofReal (2.0 : Float) * z)) (hre : ¬ (z.re == 0) = true) :
    AlikeParts (Scalar.powerFactor z 2.0) (Scalar.ofReal (2.0 : Float) * z) := by
  have hfactor : Scalar.powerFactor z 2.0 =
      Scalar.ofReal (2.0 : Float) * z.reflect * Scalar.ofReal (Literal.sign z.re) := rfl
  have htwice := alikeParts_ofReal_mul hz 2.0
  have heq := AlikeParts.equivalence
  rw [hfactor, Complex.reflect]
  rcases sizeCases hz.re with ⟨hsign, -, hnonneg⟩ | ⟨hsign, -, hneg⟩ | ⟨-, hzero, -⟩
  · rw [hsign, if_pos hnonneg]
    exact alikeParts_mul_one hdouble
  · rw [hsign, if_neg hneg]
    have hminus : FiniteParts (-z) := ⟨(isFinite_neg _).trans hz.re, (isFinite_neg _).trans hz.im⟩
    have hopposite : AlikeParts (Scalar.ofReal (2.0 : Float) * -z)
        ⟨-(2.0 * z.re), -(2.0 * z.im)⟩ := by
      rw [← mul_neg_eq, ← mul_neg_eq]
      exact alikeParts_ofReal_mul hminus 2.0
    have hfinite : FiniteParts ⟨-(2.0 * z.re), -(2.0 * z.im)⟩ :=
      ⟨(isFinite_neg _).trans (htwice.re.isFinite_eq.symm.trans hdouble.re),
        (isFinite_neg _).trans (htwice.im.isFinite_eq.symm.trans hdouble.im)⟩
    have hback := alikeParts_mul_ofReal hfinite (-1)
    rw [mul_neg_one_eq, mul_neg_one_eq, neg_neg_eq, neg_neg_eq] at hback
    exact heq.trans (hopposite.mul (.refl _)) (heq.trans hback (heq.symm htwice))
  · exact absurd hzero hre

/-- On the imaginary axis there is no sign. -/
theorem square_turned_alikeParts {z : Complex Float}
    (hdouble : FiniteParts (Scalar.ofReal (2.0 : Float) * z)) (hre : (z.re == 0) = true) :
    AlikeParts (Scalar.powerFactor z 2.0) (Scalar.ofReal (0 : Float)) := by
  have hfactor : Scalar.powerFactor z 2.0 =
      Scalar.ofReal (2.0 : Float) * z.reflect * Scalar.ofReal (Literal.sign z.re) := rfl
  have hzero := alike_zero hre
  rw [hfactor, Complex.reflect, if_pos ((Alike.refl 0).le_iff hzero |>.mpr (by decide))]
  have hsign : Literal.sign z.re = 0 := by
    unfold Literal.sign
    rw [if_neg (mt ((Alike.refl 0).lt_iff hzero).mp (by decide)),
      if_neg (mt (hzero.lt_iff (.refl 0)).mp (by decide))]
  rw [hsign]
  exact mul_zero_alikeParts_iff.mpr hdouble

/-- Complex numbers have the slope of a square off the imaginary axis, where it does not overflow. -/
theorem alikeParts_slopes :
    Scalar.Slopes AlikeParts FiniteParts (fun z => FiniteParts (Scalar.ofReal (2.0 : Float) * z))
      (fun z => (z.re == 0) = true) where
  similarity := alikeParts_similarity
  isTrue_ofBool flag := by cases flag <;> rfl
  ofReal_zero_iff := ⟨fun h => alike_zero_iff.mp h.re, fun h => ⟨alike_zero h, .refl _⟩⟩
  finite_ofReal_iff := ⟨FiniteParts.re, finiteParts_ofReal⟩
  mul_zero_iff := mul_zero_alikeParts_iff
  zero_mul {z} hz := by
    have hproduct := alikeParts_ofReal_mul hz 0
    exact AlikeParts.equivalence.trans hproduct
      ⟨alike_zero (zero_mul_beq hz.re), alike_zero (zero_mul_beq hz.im)⟩
  finite_sign z := finiteParts_ofReal (sign_isFinite z.re)
  power_zero _ := rfl
  one_mul_sign z := alikeParts_one_mul (finiteParts_ofReal (sign_isFinite z.re))
  finite_double_iff {u} hu := by
    have hproduct := alikeParts_ofReal_mul (finiteParts_ofReal hu) 2.0
    have himaginary : (2.0 * 0 : Float).isFinite = true := rfl
    exact ⟨fun h => hproduct.re.isFinite_eq.symm.trans h.re, fun h =>
      ⟨hproduct.re.isFinite_eq.trans h, hproduct.im.isFinite_eq.trans himaginary⟩⟩
  square := square_alikeParts
  square_turned := square_turned_alikeParts

end CircuitExpr
