import Mathlib
import CircuitExpr.Proofs.Numeric.Domains
import CircuitExpr.Proofs.Numeric.Signs

/-!
# Zeros among doubles

A slope that is zero for a reason in the expression is added, multiplied and divided with numbers
that may overflow. A product with zero is zero or undefined; what comes out of several steps is
zero or not finite. Such numbers are closed under everything that slopes are put together by.

## Main statements

* `zeroIf_mul_zero`, `zeroIf_zero_mul` — which products with zero are zero
* `Scalar.Ideal` — what zeros turn into; `degenerate_ideal` and `degenerateParts_ideal`
-/

namespace CircuitExpr

open Binary64 Literal

/-! ## Sums and products of zeros -/

namespace Binary64

open Float.Model (UnpackedFloat)

variable {x y z : Float}

/-- Zeros are alike. -/
theorem alike_zero (hz : (z == 0) = true) : Alike z 0 := .inr ⟨hz, rfl⟩

theorem alike_zero_iff : Alike z 0 ↔ (z == 0) = true := ⟨fun h => h.beq_eq (.refl 0), alike_zero⟩

theorem neg_zero_beq (hz : (z == 0) = true) : (-z == 0) = true :=
  ((alike_zero hz).neg.beq_eq (.refl 0)).trans rfl

theorem add_zeros_beq (hx : (x == 0) = true) (hy : (y == 0) = true) : (x + y == 0) = true :=
  (((alike_zero hx).add (alike_zero hy)).beq_eq (.refl 0)).trans rfl

theorem sub_zeros_beq (hx : (x == 0) = true) (hy : (y == 0) = true) : (x - y == 0) = true :=
  (((alike_zero hx).sub (alike_zero hy)).beq_eq (.refl 0)).trans rfl

/-! ### Undefined values -/

theorem isNaN_iff : x.isNaN = true ↔ unpacked x = .notANumber := by
  have hparts : x.isNaN = (unpacked x).isNaN := rfl
  rw [hparts]
  cases unpacked x <;> simp [UnpackedFloat.isNaN]

theorem isNaN_packed {u : UnpackedFloat} (h : u = .notANumber) : (packed u).isNaN = true := by
  subst h
  rfl

theorem isNaN_add (h : x.isNaN = true ∨ y.isNaN = true) : (x + y).isNaN = true := by
  show (packed ((unpacked x).add .binary64 (unpacked y))).isNaN = true
  apply isNaN_packed
  rcases h with h | h <;> rw [isNaN_iff.mp h]
  · cases unpacked y <;> rfl
  · cases unpacked x <;> rfl

theorem isNaN_sub (h : x.isNaN = true ∨ y.isNaN = true) : (x - y).isNaN = true := by
  show (packed ((unpacked x).sub .binary64 (unpacked y))).isNaN = true
  apply isNaN_packed
  rcases h with h | h <;> rw [isNaN_iff.mp h]
  · cases unpacked y <;> rfl
  · cases unpacked x <;> rfl

theorem beq_of_isNaN (hx : x.isNaN = true) (y : Float) : (x == y) = false := by
  rw [beq_eq_compare, isNaN_iff.mp hx]
  cases unpacked y <;> rfl

/-! ### Products with zero -/

/-- A product with zero is zero or undefined, as the other factor is finite or not. -/
def ZeroIf (finite : Bool) (x : Float) : Prop :=
  if finite then (x == 0) = true else x.isNaN = true

theorem zeroIf_mul_zero (x : Float) (hz : (z == 0) = true) : ZeroIf x.isFinite (x * z) := by
  obtain ⟨s, hs⟩ := isZero_iff.mp hz
  have hproduct : x * z = packed ((unpacked x).mul .binary64 (.zero s)) := hs ▸ rfl
  have hfinite : x.isFinite = (unpacked x).isFinite := rfl
  rw [hproduct, hfinite]
  cases unpacked x with
  | notANumber => exact isNaN_packed rfl
  | infinity r => exact isNaN_packed rfl
  | zero r | finite r => exact isZero_iff.mpr ⟨r * s, unpacked_packed_zero _⟩

theorem zeroIf_zero_mul (x : Float) (hz : (z == 0) = true) : ZeroIf x.isFinite (z * x) := by
  obtain ⟨s, hs⟩ := isZero_iff.mp hz
  have hproduct : z * x = packed ((UnpackedFloat.zero s).mul .binary64 (unpacked x)) := hs ▸ rfl
  have hfinite : x.isFinite = (unpacked x).isFinite := rfl
  rw [hproduct, hfinite]
  cases unpacked x with
  | notANumber => exact isNaN_packed rfl
  | infinity r => exact isNaN_packed rfl
  | zero r | finite r => exact isZero_iff.mpr ⟨s * r, unpacked_packed_zero _⟩

theorem ZeroIf.add {p q : Bool} (hx : ZeroIf p x) (hy : ZeroIf q y) : ZeroIf (p && q) (x + y) := by
  cases p <;> cases q
  · exact isNaN_add (.inl hx)
  · exact isNaN_add (.inl hx)
  · exact isNaN_add (.inr hy)
  · exact add_zeros_beq hx hy

theorem ZeroIf.sub {p q : Bool} (hx : ZeroIf p x) (hy : ZeroIf q y) : ZeroIf (p && q) (x - y) := by
  cases p <;> cases q
  · exact isNaN_sub (.inl hx)
  · exact isNaN_sub (.inl hx)
  · exact isNaN_sub (.inr hy)
  · exact sub_zeros_beq hx hy

theorem ZeroIf.beq_zero_eq {p : Bool} (hx : ZeroIf p x) : (x == 0) = p := by
  cases p
  · exact beq_of_isNaN hx 0
  · exact hx

/-! ### What zeros turn into -/

/-- A double that is zero unless it is infinite or undefined. -/
def Degenerate (x : Float) : Prop := x.isFinite = true → (x == 0) = true

/-- The parts of such a double. -/
def degenerate : UnpackedFloat → Bool
  | .finite _ _ _ _ => false
  | _ => true

theorem degenerate_iff : Degenerate x ↔ degenerate (unpacked x) = true := by
  have hfinite : x.isFinite = (unpacked x).isFinite := rfl
  rw [Degenerate, isZero_iff, hfinite]
  rcases unpacked x with _ | _ | _ | _ <;> simp [UnpackedFloat.isFinite, degenerate]

/-- Such parts are packed as they are. -/
theorem degenerate_packed {u : UnpackedFloat} (h : degenerate u = true) :
    Degenerate (packed u) := by
  rw [degenerate_iff]
  rcases u with (_ | _) | _ | (_ | _) | _
  case finite => exact nomatch h
  all_goals rfl

theorem degenerate_zero : Degenerate 0 := fun _ => rfl

theorem degenerate_neg_iff : Degenerate (-x) ↔ Degenerate x := by
  have hneg : degenerate (unpacked x).neg = degenerate (unpacked x) := by
    rcases unpacked x with _ | _ | _ | _ <;> rfl
  rw [degenerate_iff, degenerate_iff, unpacked_neg, hneg]

theorem Degenerate.add (hx : Degenerate x) (hy : Degenerate y) : Degenerate (x + y) := by
  rw [degenerate_iff] at hx hy
  refine degenerate_packed (u := (unpacked x).add .binary64 (unpacked y)) ?_
  generalize unpacked x = u at hx ⊢
  generalize unpacked y = v at hy ⊢
  rcases u with s | _ | s | _ <;> rcases v with t | _ | t | _
  all_goals first
    | exact absurd hx Bool.false_ne_true
    | exact absurd hy Bool.false_ne_true
    | rfl
    | (cases s <;> cases t <;> rfl)

theorem Degenerate.sub (hx : Degenerate x) (hy : Degenerate y) : Degenerate (x - y) := by
  rw [degenerate_iff] at hx hy
  refine degenerate_packed (u := (unpacked x).sub .binary64 (unpacked y)) ?_
  generalize unpacked x = u at hx ⊢
  generalize unpacked y = v at hy ⊢
  rcases u with s | _ | s | _ <;> rcases v with t | _ | t | _
  all_goals first
    | exact absurd hx Bool.false_ne_true
    | exact absurd hy Bool.false_ne_true
    | rfl
    | (cases s <;> cases t <;> rfl)

theorem Degenerate.mul_left (hx : Degenerate x) (y : Float) : Degenerate (x * y) := by
  rw [degenerate_iff] at hx
  refine degenerate_packed (u := (unpacked x).mul .binary64 (unpacked y)) ?_
  generalize unpacked x = u at hx ⊢
  rcases u with _ | _ | _ | _
  case finite => exact nomatch hx
  all_goals rcases unpacked y with _ | _ | _ | _ <;> rfl

theorem Degenerate.mul_right (x : Float) {y : Float} (hy : Degenerate y) : Degenerate (x * y) := by
  rw [degenerate_iff] at hy
  refine degenerate_packed (u := (unpacked x).mul .binary64 (unpacked y)) ?_
  generalize unpacked y = v at hy ⊢
  rcases v with _ | _ | _ | _
  case finite => exact nomatch hy
  all_goals rcases unpacked x with _ | _ | _ | _ <;> rfl

theorem Degenerate.div (hx : Degenerate x) (y : Float) : Degenerate (x / y) := by
  rw [degenerate_iff] at hx
  refine degenerate_packed (u := (unpacked x).div .binary64 (unpacked y)) ?_
  generalize unpacked x = u at hx ⊢
  rcases u with _ | _ | _ | _
  case finite => exact nomatch hx
  all_goals rcases unpacked y with _ | _ | _ | _ <;> rfl

theorem degenerate_infinity : Degenerate (infinity : Float) := nofun

theorem Degenerate.safeDivide (hx : Degenerate x) (y fudge : Float) :
    Degenerate (safeDivide x y fudge) := by
  unfold Literal.safeDivide
  dsimp only
  split
  · exact degenerate_infinity
  · exact hx.div _

/-- Both parts are zero unless they are infinite or undefined. -/
structure DegenerateParts (z : Complex Float) : Prop where
  re : Degenerate z.re
  im : Degenerate z.im

namespace DegenerateParts

variable {z : Complex Float}

theorem mul_left (hz : DegenerateParts z) (w : Complex Float) : DegenerateParts (z * w) :=
  ⟨(hz.re.mul_left _).sub (hz.im.mul_left _), (hz.re.mul_left _).add (hz.im.mul_left _)⟩

theorem mul_right (z : Complex Float) {w : Complex Float} (hw : DegenerateParts w) :
    DegenerateParts (z * w) :=
  ⟨(hw.re.mul_right _).sub (hw.im.mul_right _), (hw.im.mul_right _).add (hw.re.mul_right _)⟩

theorem div (hz : DegenerateParts z) (w : Complex Float) : DegenerateParts (z / w) :=
  ⟨((hz.re.mul_left _).add (hz.im.mul_left _)).div _,
    ((hz.im.mul_left _).sub (hz.re.mul_left _)).div _⟩

theorem safeDivide (hz : DegenerateParts z) (w : Complex Float) (fudge : Float) :
    DegenerateParts (z.safeDivide w fudge) := by
  unfold Complex.safeDivide
  dsimp only
  split
  · exact ⟨degenerate_infinity, degenerate_zero⟩
  · exact hz.div _

end DegenerateParts

end Binary64

namespace Scalar

/-- Numbers that sums stay within, and products and quotients of any of them with any number. -/
structure Ideal {D : Type} [Scalar D Float] (Z : D → Prop) : Prop where
  ofReal_iff : ∀ x : Float, Z (ofReal x) ↔ Degenerate x
  neg_iff : ∀ {x}, Z (-x) ↔ Z x
  add : ∀ {x y}, Z x → Z y → Z (x + y)
  sub : ∀ {x y}, Z x → Z y → Z (x - y)
  mul_left : ∀ {x}, Z x → ∀ y, Z (x * y)
  mul_right : ∀ x {y}, Z y → Z (x * y)
  safeDivide : ∀ {x}, Z x → ∀ y (fudge : Float), Z (Scalar.safeDivide x y fudge)

theorem degenerate_ideal : Ideal Degenerate where
  ofReal_iff _ := Iff.rfl
  neg_iff := degenerate_neg_iff
  add := Degenerate.add
  sub := Degenerate.sub
  mul_left := Degenerate.mul_left
  mul_right := Degenerate.mul_right
  safeDivide := Degenerate.safeDivide

theorem degenerateParts_ideal : Ideal DegenerateParts where
  ofReal_iff _ := ⟨DegenerateParts.re, fun h => ⟨h, degenerate_zero⟩⟩
  neg_iff := ⟨fun h => ⟨degenerate_neg_iff.mp h.re, degenerate_neg_iff.mp h.im⟩,
    fun h => ⟨degenerate_neg_iff.mpr h.re, degenerate_neg_iff.mpr h.im⟩⟩
  add h h' := ⟨h.re.add h'.re, h.im.add h'.im⟩
  sub h h' := ⟨h.re.sub h'.re, h.im.sub h'.im⟩
  mul_left := DegenerateParts.mul_left
  mul_right := DegenerateParts.mul_right
  safeDivide := DegenerateParts.safeDivide

end Scalar

end CircuitExpr
