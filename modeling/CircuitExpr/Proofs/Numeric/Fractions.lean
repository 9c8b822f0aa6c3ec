import Mathlib
import CircuitExpr.Proofs.Numeric.Alike

/-!
# The fraction that a double stands for

The fraction of a double is read off its bits, and so are the parts that arithmetic takes it apart
into. For numbers the two are the same.

## Main statements

* `ofFloat_of_finite`, `ofFloat_of_zero` — the fraction of a double by its parts
* `exists_unpacked` — the parts of a finite double, whose sign is the sign bit
-/

namespace CircuitExpr.Binary64

open Float.Model (Format UnpackedFloat)
open Float.Model.UnpackedFloat

/-! ## Fields of bits -/

section Fields

variable (x : Float)

theorem mantissaField_toNat :
    (@unpackMantissa .binary64 x.toModel.toBits.toBitVec).toNat = x.toBits.toNat % 2 ^ 52 := by
  show (BitVec.extractLsb 51 0 x.toBits.toBitVec).toNat = _
  simp

theorem exponentField_toNat :
    (@unpackExponent .binary64 x.toModel.toBits.toBitVec).toNat =
      (x.toBits.toNat >>> 52) % 2 ^ 11 := by
  show (BitVec.extractLsb 62 52 x.toBits.toBitVec).toNat = _
  simp

theorem signField_eq :
    Sign.ofBitVec (@unpackSign .binary64 x.toModel.toBits.toBitVec) =
      if signBit x then .negative else .positive := by
  have hfield :
      (@unpackSign .binary64 x.toModel.toBits.toBitVec).toNat = x.toBits.toNat >>> 63 := by
    show (BitVec.extractLsb 63 63 x.toBits.toBitVec).toNat = _
    have hlt := x.toBits.toNat_lt
    simp only [BitVec.extractLsb, BitVec.extractLsb'_toNat, UInt64.toNat_toBitVec]
    rw [Nat.shiftRight_eq_div_pow]
    omega
  have hbit : signBit x = (x.toBits.toNat >>> 63 == 1) := by
    rw [signBit, Bool.eq_iff_iff, beq_iff_eq, beq_iff_eq, ← UInt64.toNat_inj,
      UInt64.toNat_shiftRight]
    rfl
  have hlt := (@unpackSign .binary64 x.toModel.toBits.toBitVec).isLt
  rw [hbit, ← hfield, Sign.ofBitVec]
  generalize @unpackSign .binary64 x.toModel.toBits.toBitVec = b at hlt
  have hzero : b = 0#1 ↔ b.toNat = 0 := by
    rw [← BitVec.toNat_inj]
    rfl
  simp only [hzero, beq_iff_eq]
  split <;> split <;> first | rfl | omega

end Fields

/-! ## Fractions -/

variable {x : Float} {s : Sign}

/-- Whether a sign is a minus sign. -/
def isMinus : Sign → Bool
  | .negative => true
  | .positive => false

theorem isMinus_signField (x : Float) :
    isMinus (Sign.ofBitVec (@unpackSign .binary64 x.toModel.toBits.toBitVec)) = signBit x := by
  rw [signField_eq]
  cases signBit x <;> rfl

/-- The fraction of a finite double that is not zero has its sign, mantissa and exponent. -/
theorem ofFloat_of_finite {m : Nat} {e : Int} {h : 0 < m} (hx : unpacked x = .finite s m e h) :
    ofFloat x = ⟨isMinus s, m, e⟩ := by
  have hsign := isMinus_signField x
  have hmantissa := mantissaField_toNat x
  have hexponent := exponentField_toNat x
  unfold ofFloat
  simp only [Nat.one_shiftLeft, ← hmantissa, ← hexponent, ← hsign]
  simp only [unpacked, Float.Model.unpack, UnpackedFloat.unpack] at hx
  split at hx
  · split at hx <;> cases hx
  · split at hx
    · next hzero =>
      split at hx
      · cases hx
      · injection hx with hs hm he
        rw [hzero, exponent_field] at he
        have hleast : (@unpackExponent .binary64 x.toModel.toBits.toBitVec).toNat = 0 :=
          congrArg BitVec.toNat hzero
        rw [if_pos hleast, hs, hm, ← he]
        rfl
    · next hnonzero =>
      injection hx with hs hm he
      rw [exponent_field] at he
      rw [implicit_toNat] at hm
      have hne : (@unpackExponent .binary64 x.toModel.toBits.toBitVec).toNat ≠ 0 :=
        fun h => hnonzero (BitVec.eq_of_toNat_eq h)
      rw [if_neg hne, hs, hm, ← he]

/-- A zero stands for the fraction zero with its sign. -/
theorem ofFloat_of_zero (hx : unpacked x = .zero s) : ofFloat x = ⟨isMinus s, 0, -1074⟩ := by
  have hsign := isMinus_signField x
  have hmantissa := mantissaField_toNat x
  have hexponent := exponentField_toNat x
  unfold ofFloat
  simp only [Nat.one_shiftLeft, ← hmantissa, ← hexponent, ← hsign]
  simp only [unpacked, Float.Model.unpack, UnpackedFloat.unpack] at hx
  split at hx
  · split at hx <;> cases hx
  · split at hx
    · next hzero =>
      split at hx
      · next hm =>
        injection hx with hs
        have hleast : (@unpackExponent .binary64 x.toModel.toBits.toBitVec).toNat = 0 :=
          congrArg BitVec.toNat hzero
        rw [if_pos hleast, hm, hs]
        rfl
      · cases hx
    · cases hx

theorem negative_ofFloat (x : Float) : (ofFloat x).negative = signBit x := by
  unfold ofFloat
  simp only
  split <;> rfl

/-- The parts of a finite double, whose sign is the sign bit. -/
theorem exists_unpacked (hx : x.isFinite = true) :
    ∃ s, isMinus s = signBit x ∧
      (unpacked x = .zero s ∨ ∃ m e h, unpacked x = .finite s m e h) := by
  have hfinite : (unpacked x).isFinite = true := hx
  have hsign := negative_ofFloat x
  rcases hu : unpacked x with s | _ | s | ⟨s, m, e, h⟩
  · rw [hu] at hfinite
    cases hfinite
  · rw [hu] at hfinite
    cases hfinite
  · rw [ofFloat_of_zero hu] at hsign
    exact ⟨s, hsign, .inl rfl⟩
  · rw [ofFloat_of_finite hu] at hsign
    exact ⟨s, hsign, .inr ⟨m, e, h, rfl⟩⟩

end CircuitExpr.Binary64
