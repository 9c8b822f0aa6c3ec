import Mathlib
import CircuitExpr.Proofs.Numeric.Packed

/-!
# Doubles up to the signs of zeros

Two doubles are alike when they are the same or zeros of any sign; an undefined value is like
itself. Sums, differences and products of alike doubles are alike, and alike doubles compare in
the same way. A quotient is the exception: the sign of a zero divisor is that of the infinity.

## Main statements

* `Alike.add`, `Alike.mul`, `Alike.compare_eq`, … — operations and comparisons
* `alike_add_zero`, `alike_zero_add`, `alike_sub_zero` — a zero is neutral
* `mul_one_eq`, `one_mul_eq` — so is one, without any exception
-/

namespace CircuitExpr

namespace Binary64

open Float.Model (UnpackedFloat)
open Float.Model.UnpackedFloat (Sign)

/-- The same double, but for the sign of a zero. -/
def Alike (x y : Float) : Prop := x = y ∨ (x == 0) = true ∧ (y == 0) = true

theorem isZero_iff {x : Float} : (x == 0) = true ↔ ∃ s, unpacked x = .zero s := by
  have hbeq : (x == 0) = ((unpacked x).compare (.zero .positive) == some .eq) := rfl
  rw [hbeq, beq_iff_eq]
  constructor
  · intro h
    have hsame := same_of_compare h
    generalize unpacked x = u at hsame
    cases hsame with
    | refl => exact ⟨_, rfl⟩
    | zero s t => exact ⟨s, rfl⟩
  · rintro ⟨s, hs⟩
    rw [hs]
    rfl

theorem alike_iff {x y : Float} : Alike x y ↔ Same (unpacked x) (unpacked y) := by
  constructor
  · rintro (rfl | ⟨hx, hy⟩)
    · exact .refl _
    · obtain ⟨s, hs⟩ := isZero_iff.mp hx
      obtain ⟨t, ht⟩ := isZero_iff.mp hy
      rw [hs, ht]
      exact .zero s t
  · intro h
    generalize hu : unpacked x = u at h
    generalize hv : unpacked y = v at h
    cases h with
    | refl =>
      left
      rw [← packed_unpacked x, hu, ← hv, packed_unpacked]
    | zero s t => exact .inr ⟨isZero_iff.mpr ⟨s, hu⟩, isZero_iff.mpr ⟨t, hv⟩⟩

theorem alike_equivalence : Equivalence Alike where
  refl _ := .inl rfl
  symm h := h.imp Eq.symm And.symm
  trans := by
    rintro x y z (rfl | ⟨hx, hy⟩) (rfl | ⟨hy', hz⟩)
    · exact .inl rfl
    · exact .inr ⟨hy', hz⟩
    · exact .inr ⟨hx, hy⟩
    · exact .inr ⟨hx, hz⟩

theorem Alike.refl (x : Float) : Alike x x := .inl rfl

/-- Alike doubles of which one is not zero are the same. -/
theorem Alike.eq_of_ne_zero {x y : Float} (h : Alike x y) (hx : (x == 0) = false) : x = y := by
  rcases h with h | ⟨hzero, -⟩
  · exact h
  · exact absurd (hx.symm.trans hzero) (by decide)

/-- What holds of the same parts and of zeros holds of the parts of alike doubles. -/
theorem Alike.parts {x y : Float} (h : Alike x y) {r : UnpackedFloat → UnpackedFloat → Prop}
    (refl : ∀ u, r u u) (zero : ∀ s t, r (.zero s) (.zero t)) : r (unpacked x) (unpacked y) := by
  have hsame := alike_iff.mp h
  generalize unpacked x = u at hsame
  generalize unpacked y = v at hsame
  cases hsame with
  | refl => exact refl _
  | zero s t => exact zero s t

/-- What is the same for all zeros is the same for alike doubles. -/
theorem Alike.congr {α : Type} {x y : Float} (h : Alike x y) {f : UnpackedFloat → α}
    (zero : ∀ s t, f (.zero s) = f (.zero t)) : f (unpacked x) = f (unpacked y) :=
  h.parts (r := fun u v => f u = f v) (fun _ => rfl) zero

theorem unpacked_packed_zero (s : Sign) : unpacked (packed (.zero s)) = .zero s := by
  cases s <;> rfl

theorem Same.packed {u v : UnpackedFloat} (h : Same u v) : Alike (packed u) (packed v) := by
  cases h with
  | refl => exact .refl _
  | zero s t =>
    rw [alike_iff, unpacked_packed_zero, unpacked_packed_zero]
    exact .zero s t

section Operations

variable {x x' y y' : Float}

/-! ## Arithmetic -/

theorem Alike.binary {op : UnpackedFloat → UnpackedFloat → UnpackedFloat} (hop : RespectsZeros op)
    (hx : Alike x x') (hy : Alike y y') :
    Alike (packed (op (unpacked x) (unpacked y))) (packed (op (unpacked x') (unpacked y'))) := by
  have hleft : ∀ v, Alike (packed (op (unpacked x) v)) (packed (op (unpacked x') v)) := fun v =>
    hx.parts (r := fun u u' => Alike (packed (op u v)) (packed (op u' v))) (fun _ => .refl _)
      fun s t => (hop.left s t v).packed
  have hright : ∀ u, Alike (packed (op u (unpacked y))) (packed (op u (unpacked y'))) := fun u =>
    hy.parts (r := fun v v' => Alike (packed (op u v)) (packed (op u v'))) (fun _ => .refl _)
      fun s t => (hop.right u s t).packed
  exact alike_equivalence.trans (hleft _) (hright _)

theorem Alike.add (hx : Alike x x') (hy : Alike y y') : Alike (x + y) (x' + y') :=
  hx.binary add_respectsZeros hy

theorem Alike.sub (hx : Alike x x') (hy : Alike y y') : Alike (x - y) (x' - y') :=
  hx.binary sub_respectsZeros hy

theorem Alike.mul (hx : Alike x x') (hy : Alike y y') : Alike (x * y) (x' * y') :=
  hx.binary mul_respectsZeros hy

theorem Alike.neg (hx : Alike x x') : Alike (-x) (-x') :=
  hx.parts (r := fun u v => Alike (packed u.neg) (packed v.neg)) (fun _ => .refl _)
    fun s t => (Same.zero (-s) (-t)).packed

/-- A quotient by one and the same number. -/
theorem Alike.div (hx : Alike x x') (y : Float) : Alike (x / y) (x' / y) :=
  hx.parts (r := fun u v => Alike (packed (u.div .binary64 (unpacked y)))
    (packed (v.div .binary64 (unpacked y)))) (fun _ => .refl _)
    fun s t => (div_zero_left s t _).packed

theorem Alike.abs_eq (hx : Alike x x') : x.abs = x'.abs :=
  hx.congr (f := fun u => packed u.abs) fun _ _ => rfl

/-- A square does not depend on signs. -/
theorem Alike.mul_self_eq (hx : Alike x x') : x * x = x' * x' :=
  hx.congr (f := fun u => packed (u.mul .binary64 u)) fun s t => by cases s <;> cases t <;> rfl

theorem alike_add_zero {z : Float} (hz : (z == 0) = true) (x : Float) : Alike (x + z) x := by
  obtain ⟨s, hs⟩ := isZero_iff.mp hz
  have h := (same_add_zero (unpacked x) s).packed
  rwa [← hs, packed_unpacked] at h

theorem alike_zero_add {z : Float} (hz : (z == 0) = true) (x : Float) : Alike (z + x) x := by
  obtain ⟨s, hs⟩ := isZero_iff.mp hz
  have h := (same_zero_add s (unpacked x)).packed
  rwa [← hs, packed_unpacked] at h

theorem alike_sub_zero {z : Float} (hz : (z == 0) = true) (x : Float) : Alike (x - z) x := by
  obtain ⟨s, hs⟩ := isZero_iff.mp hz
  have h := (same_sub_zero (unpacked x) s).packed
  rwa [← hs, packed_unpacked] at h

theorem mul_one_eq (x : Float) : x * 1 = x := by
  have h : x * 1 = packed ((unpacked x).mul .binary64 unit) := rfl
  rw [h, mul_unit, packed_unpacked]

theorem one_mul_eq (x : Float) : 1 * x = x := by
  have h : 1 * x = packed (unit.mul .binary64 (unpacked x)) := rfl
  rw [h, unit_mul, packed_unpacked]

/-! ## Comparisons -/

theorem Alike.compare_eq (hx : Alike x x') (hy : Alike y y') :
    (unpacked x).compare (unpacked y) = (unpacked x').compare (unpacked y') :=
  (hx.congr (f := fun u => u.compare (unpacked y)) fun s t => compare_zero_left s t _).trans
    (hy.congr (f := fun v => (unpacked x').compare v) fun s t => compare_zero_right _ s t)

theorem lt_iff_compare : x < y ↔ (unpacked x).compare (unpacked y) = some .lt := by
  have hlt : x < y ↔ ((unpacked x).compare (unpacked y) == some .lt) = true := decide_eq_true_iff
  rw [hlt, beq_iff_eq]

theorem le_iff_compare : x ≤ y ↔ ((unpacked x).compare (unpacked y)).any (·.isLE) = true :=
  decide_eq_true_iff

theorem beq_eq_compare : (x == y) = ((unpacked x).compare (unpacked y) == some .eq) := rfl

theorem Alike.lt_iff (hx : Alike x x') (hy : Alike y y') : x < y ↔ x' < y' := by
  rw [lt_iff_compare, lt_iff_compare, hx.compare_eq hy]

theorem Alike.le_iff (hx : Alike x x') (hy : Alike y y') : x ≤ y ↔ x' ≤ y' := by
  rw [le_iff_compare, le_iff_compare, hx.compare_eq hy]

theorem Alike.beq_eq (hx : Alike x x') (hy : Alike y y') : (x == y) = (x' == y') := by
  rw [beq_eq_compare, beq_eq_compare, hx.compare_eq hy]

/-- Equal doubles are alike. -/
theorem alike_of_beq (h : (x == y) = true) : Alike x y := by
  rw [beq_eq_compare, beq_iff_eq] at h
  exact alike_iff.mpr (same_of_compare h)

/-- Of equal doubles that are not the same both are zeros. -/
theorem eq_of_beq_of_ne (h : (x == y) = true) (hy : (y == 0) = false) : x = y :=
  ((alike_equivalence.symm (alike_of_beq h)).eq_of_ne_zero hy).symm

theorem mul_zero_beq (hx : x.isFinite = true) : (x * 0 == 0) = true := by
  have h : Alike (x * 0) (packed (.zero .positive)) := (same_mul_zero hx .positive).packed
  exact (h.beq_eq (.refl 0)).trans rfl

theorem zero_mul_beq (hx : x.isFinite = true) : (0 * x == 0) = true := by
  have h : Alike (0 * x) (packed (.zero .positive)) := (same_zero_mul .positive hx).packed
  exact (h.beq_eq (.refl 0)).trans rfl

theorem Alike.isNaN_eq (hx : Alike x x') : x.isNaN = x'.isNaN :=
  hx.congr (f := UnpackedFloat.isNaN) fun _ _ => rfl

theorem Alike.isInf_eq (hx : Alike x x') : x.isInf = x'.isInf :=
  hx.congr (f := UnpackedFloat.isInf) fun _ _ => rfl

theorem Alike.isFinite_eq (hx : Alike x x') : x.isFinite = x'.isFinite :=
  hx.congr (f := UnpackedFloat.isFinite) fun _ _ => rfl

end Operations

end Binary64

end CircuitExpr
