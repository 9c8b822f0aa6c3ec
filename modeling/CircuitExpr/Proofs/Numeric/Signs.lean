import Mathlib
import CircuitExpr.Numeric.Literal
import CircuitExpr.Proofs.Numeric.Alike

/-!
# Signs of doubles

The sign is a field of its own: turning it around does not touch the other fields, so that it
commutes with packing and with multiplication. A finite double is its size with its sign.

## Main statements

* `neg_packed`, `unpacked_neg` — a negative taken apart
* `mul_neg_eq`, `mul_neg_one_eq`, `neg_neg_eq` — signs in products
* `double_size_mul_sign` — twice the size with the sign is twice the number
-/

namespace CircuitExpr.Binary64

open Float.Model (Format UnpackedFloat)
open Float.Model.UnpackedFloat

variable {x y : Float}

/-! ## Negatives -/

/-- Turning the sign field around turns the sign around. -/
theorem unpack_packComponents_neg (s : Sign) (e : BitVec 11) (m : BitVec 52) :
    UnpackedFloat.unpack .binary64 (packComponents .binary64 (-s) e m) =
      (UnpackedFloat.unpack .binary64 (packComponents .binary64 s e m)).neg := by
  unfold UnpackedFloat.unpack
  simp only [unpackSign_packComponents, unpackExponent_packComponents,
    unpackMantissa_packComponents, ofBitVec_toBitVec]
  split
  · split <;> rfl
  · split
    · split <;> rfl
    · rfl

theorem unpacked_packed_neg (u : UnpackedFloat) :
    unpacked (packed u.neg) = (unpacked (packed u)).neg := by
  show UnpackedFloat.unpack .binary64 (UnpackedFloat.pack .binary64 u.neg) =
    (UnpackedFloat.unpack .binary64 (UnpackedFloat.pack .binary64 u)).neg
  rcases u with s | _ | s | ⟨s, m, e, hm⟩
  · exact unpack_packComponents_neg s _ _
  · rfl
  · exact unpack_packComponents_neg s _ _
  · simp only [UnpackedFloat.neg, UnpackedFloat.pack]
    split
    · exact unpack_packComponents_neg s _ _
    · split <;> exact unpack_packComponents_neg s _ _

theorem unpacked_neg (x : Float) : unpacked (-x) = (unpacked x).neg := by
  have h := unpacked_packed_neg (unpacked x)
  rwa [packed_unpacked] at h

theorem neg_packed (u : UnpackedFloat) : -packed u = packed u.neg := by
  show packed (unpacked (packed u)).neg = packed u.neg
  rw [← unpacked_packed_neg, packed_unpacked]

theorem neg_neg_eq (x : Float) : - -x = x := by
  have hneg : (unpacked x).neg.neg = unpacked x := by
    rcases unpacked x with s | _ | s | ⟨s, _, _, _⟩ <;> try cases s
    all_goals rfl
  show packed (unpacked (-x)).neg = x
  rw [unpacked_neg, hneg, packed_unpacked]

theorem isFinite_neg (x : Float) : (-x).isFinite = x.isFinite := by
  have hneg : (unpacked x).neg.isFinite = (unpacked x).isFinite := by
    rcases unpacked x with _ | _ | _ | _ <;> rfl
  show (unpacked (-x)).isFinite = (unpacked x).isFinite
  rw [unpacked_neg, hneg]

/-! ## Products -/

theorem round_neg (s : Sign) (m : Nat) (e : Int) (a : Accuracy) :
    roundWithAccuracy .binary64 (-s) m e a = (roundWithAccuracy .binary64 s m e a).neg := by
  unfold roundWithAccuracy
  dsimp only
  split <;> rfl

theorem mul_neg_unpacked (u v : UnpackedFloat) :
    mul .binary64 u v.neg = (mul .binary64 u v).neg := by
  have hsign : ∀ s t : Sign, s * -t = -(s * t) := by
    intro s t
    cases s <;> cases t <;> rfl
  rcases u with s | _ | s | ⟨s, _, _, _⟩ <;> rcases v with t | _ | t | ⟨t, _, _, _⟩ <;>
    simp only [UnpackedFloat.neg, UnpackedFloat.mul, hsign, round_neg]

theorem mul_neg_eq (x y : Float) : x * -y = -(x * y) := by
  show packed (mul .binary64 (unpacked x) (unpacked (-y))) =
    -packed (mul .binary64 (unpacked x) (unpacked y))
  rw [unpacked_neg, mul_neg_unpacked, neg_packed]

theorem mul_neg_one_eq (x : Float) : x * -1 = -x := by
  rw [mul_neg_eq, mul_one_eq]

/-! ## Size and sign -/

/-- A finite double is above or below zero, or a zero. -/
inductive SizeCases (x : Float) : Prop
  | positive (sign : Literal.sign x = 1) (abs : x.abs = x) (nonneg : 0 ≤ x)
  | negative (sign : Literal.sign x = -1) (abs : x.abs = -x) (neg : ¬ 0 ≤ x)
  | zero (sign : Literal.sign x = 0) (eq : (x == 0) = true) (nonneg : 0 ≤ x)

theorem sizeCases (hx : x.isFinite = true) : SizeCases x := by
  have hx : (unpacked x).isFinite = true := hx
  have hsign : Literal.sign x = if 0 < x then (1 : Float) else if x < 0 then -1 else 0 := rfl
  have habs : x.abs = packed (unpacked x).abs := rfl
  have hself : packed (unpacked x) = x := packed_unpacked x
  have hneg : packed (unpacked x).neg = -x := rfl
  have hpos : 0 < x ↔ (UnpackedFloat.zero .positive).compare (unpacked x) = some .lt :=
    lt_iff_compare
  have hlt : x < 0 ↔ (unpacked x).compare (.zero .positive) = some .lt := lt_iff_compare
  have hle : 0 ≤ x ↔ ((UnpackedFloat.zero .positive).compare (unpacked x)).any (·.isLE) = true :=
    le_iff_compare
  rcases hu : unpacked x with s | _ | s | ⟨(_ | _), m, e, hm⟩ <;>
    rw [hu] at hx habs hself hneg hpos hlt hle
  · exact nomatch hx
  · exact nomatch hx
  · refine .zero ?_ (isZero_iff.mpr ⟨s, hu⟩) (hle.mpr rfl)
    rw [hsign, if_neg (mt hpos.mp nofun), if_neg (mt hlt.mp nofun)]
  · refine .negative ?_ (habs.trans hneg) (mt hle.mp Bool.false_ne_true)
    rw [hsign, if_neg (mt hpos.mp nofun), if_pos (hlt.mpr rfl)]
  · refine .positive ?_ (habs.trans hself) (hle.mpr rfl)
    rw [hsign, if_pos (hpos.mpr rfl)]

/-- Twice the size with the sign of the number is twice the number. -/
theorem double_size_mul_sign (hx : x.isFinite = true) :
    Alike (2.0 * x.abs * Literal.sign x) (2.0 * x) := by
  rcases sizeCases hx with ⟨hsign, habs, -⟩ | ⟨hsign, habs, -⟩ | ⟨hsign, hzero, -⟩
  · rw [hsign, habs]
    exact .inl (mul_one_eq _)
  · rw [hsign, habs, mul_neg_eq 2.0 x]
    exact .inl ((mul_neg_one_eq _).trans (neg_neg_eq _))
  · have hx : Alike x 0 := alike_of_beq hzero
    rw [hsign, hx.abs_eq]
    exact alike_equivalence.trans (.refl _) ((Alike.refl 2.0).mul (alike_equivalence.symm hx))

end CircuitExpr.Binary64
