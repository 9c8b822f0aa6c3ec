import Mathlib
import CircuitExpr.Numeric.Binary64

/-!
# Doubles taken apart

Arithmetic on doubles takes its operands apart into a sign, a mantissa and an exponent, computes,
and packs the result. Here is what is needed to follow an operation through: nothing is lost by
taking a double apart, and what comes out is in its final form, so that rounding leaves it alone.

## Main statements

* `packed_unpacked` — a double taken apart and put together again
* `unpacked_packed` — parts put together and taken apart again
* `same_of_compare` — parts that compare equal are the same, but for the signs of zeros
* `mul_unit` — multiplying the parts of a double by one changes nothing
-/

namespace CircuitExpr.Binary64

open Float.Model (Format UnpackedFloat totalExponent)
open Float.Model.UnpackedFloat

/-- A double taken apart. -/
def unpacked (x : Float) : UnpackedFloat := x.toModel.unpack

/-- The double put together from its parts. -/
def packed (u : UnpackedFloat) : Float := .ofModel (Float.Model.pack u)

/-! ## Nothing is lost -/

theorem packed_unpacked (x : Float) : packed (unpacked x) = x := by
  obtain ⟨⟨bits, hvalid⟩⟩ := x
  simp only [packed, unpacked, Float.Model.pack, Float.Model.unpack, pack_unpack_of_valid hvalid]

/-! ## Rounding leaves a double alone -/

theorem implicit_toNat (m : BitVec 52) : (1#1 ++ m).toNat = 2 ^ 52 + m.toNat := by
  rw [BitVec.toNat_append, ← Nat.shiftLeft_add_eq_or_of_lt m.isLt]
  rfl

/-- A finite double that needs no rounding: its mantissa has 53 digits, or the exponent is the
least one. -/
structure Final (mantissa : Nat) (exponent : Int) : Prop where
  lt : mantissa < 2 ^ 53
  ge : -1074 ≤ exponent
  normal : 2 ^ 52 ≤ mantissa ∨ exponent = -1074

theorem log2_of_normal {m : Nat} (hlow : 2 ^ 52 ≤ m) (hhigh : m < 2 ^ 53) : m.log2 = 52 := by
  have hne : m ≠ 0 := by omega
  have hge := (Nat.le_log2 hne).mpr hlow
  have hlt := (Nat.log2_lt hne).mpr hhigh
  omega

/-- The exponent field of a finite double and its exponent. -/
theorem exponent_field (n : Nat) :
    (n : Int) - (Format.binary64.exponentBias + (52 : Nat)) = n - 1075 := rfl

/-- What a double is taken apart to needs no rounding. -/
theorem final_of_unpacked {x : Float} {s : Sign} {m : Nat} {e : Int} {hpos : 0 < m}
    (h : unpacked x = .finite s m e hpos) : Final m e := by
  have hm : (@unpackMantissa .binary64 x.toModel.toBits.toBitVec).toNat < 2 ^ 52 :=
    BitVec.isLt _
  have he : (@unpackExponent .binary64 x.toModel.toBits.toBitVec).toNat < 2 ^ 11 :=
    BitVec.isLt _
  simp only [unpacked, Float.Model.unpack, UnpackedFloat.unpack] at h
  split at h
  · split at h <;> exact nomatch h
  · split at h
    · next hexponent =>
      split at h
      · exact nomatch h
      · injection h with _ hmantissa hexp
        rw [hexponent, exponent_field] at hexp
        subst hmantissa hexp
        exact ⟨by omega, by decide, .inr rfl⟩
    · next hexponent =>
      injection h with _ hmantissa hexp
      have hnonzero : (@unpackExponent .binary64 x.toModel.toBits.toBitVec).toNat ≠ 0 :=
        fun heq => hexponent (BitVec.eq_of_toNat_eq heq)
      rw [exponent_field] at hexp
      rw [implicit_toNat] at hmantissa
      subst hmantissa hexp
      exact ⟨by omega, by omega, .inl (by omega)⟩

/-- Zeros behind a mantissa are shifted out of it again. -/
theorem shiftRight_zeros (m k : Nat) :
    (⟨m * 2 ^ k, false, false⟩ : ExtendedMantissa) >>> k = ⟨m, false, false⟩ := by
  induction k generalizing m with
  | zero => rw [Nat.pow_zero, Nat.mul_one]; rfl
  | succ k ih =>
    have hdouble : m * 2 ^ (k + 1) = m * 2 * 2 ^ k := by
      rw [Nat.pow_succ, Nat.mul_assoc, Nat.mul_comm 2]
    show ((⟨m * 2 ^ (k + 1), false, false⟩ : ExtendedMantissa) >>> k).shiftRightOne = _
    rw [hdouble, ih]
    simp [ExtendedMantissa.shiftRightOne]

theorem log2_mul_two_pow {m : Nat} (hm : 0 < m) (k : Nat) : (m * 2 ^ k).log2 = m.log2 + k := by
  induction k with
  | zero => simp
  | succ k ih =>
    have hne : m * 2 ^ k ≠ 0 := Nat.ne_of_gt (Nat.mul_pos hm (Nat.two_pow_pos k))
    rw [Nat.pow_succ, ← Nat.mul_assoc, Nat.mul_comm _ 2, Nat.log2_two_mul hne, ih]
    omega

theorem targetExponent_eq (t : Int) : Format.binary64.targetExponent t = max (t - 53) (-1074) := rfl

/-- A double in its final form has the exponent that rounding aims at. -/
theorem Final.targetExponent {m : Nat} {e : Int} (h : Final m e) (hm : 0 < m) (k : Nat) :
    Format.binary64.targetExponent (totalExponent (m * 2 ^ k) (e - k)) = e := by
  obtain ⟨hlt, hge, hnormal⟩ := h
  rw [targetExponent_eq, totalExponent, log2_mul_two_pow hm]
  rcases hnormal with hlow | hleast
  · rw [log2_of_normal hlow hlt]
    omega
  · have hdigits := (Nat.log2_lt (Nat.ne_of_gt hm)).mpr hlt
    omega

/-- Bringing a double to the exponent that rounding aims at takes back what was put behind its
mantissa. -/
theorem Final.shift {m : Nat} {e : Int} (h : Final m e) (hm : 0 < m) (k : Nat) :
    shiftToTargetExponent .binary64 (m * 2 ^ k) (e - k) .exact = (⟨m, false, false⟩, e) := by
  have hdigits : (e - (e - (k : Int))).toNat = k := by omega
  have hback : e - (k : Int) + k = e := by omega
  simp only [shiftToTargetExponent, shiftToExponent, h.targetExponent hm k, hdigits,
    ExtendedMantissa.ofMantissaAndAccuracy, shiftRight_zeros, hback]

/-- What comes first at a double with digits behind its mantissa is rounded to this double. -/
theorem Final.round_of_shift {m : Nat} {e : Int} (h : Final m e) (s : Sign) (hm : 0 < m) {M : Nat}
    {E : Int} {acc : Accuracy} {em : ExtendedMantissa} (k : Nat)
    (hfirst : shiftToTargetExponent .binary64 M E acc = (em, e - k))
    (hrounded : em.roundedMantissa = m * 2 ^ k) :
    roundWithAccuracy .binary64 s M E acc = .finite s m e hm := by
  simp only [roundWithAccuracy, hfirst, hrounded, h.shift hm k]
  exact dif_neg (Nat.ne_of_gt hm)

/-- Rounding takes back what was put behind the mantissa of a double. -/
theorem Final.round {m : Nat} {e : Int} (h : Final m e) (s : Sign) (hm : 0 < m) (k : Nat) :
    roundWithAccuracy .binary64 s (m * 2 ^ k) (e - k) .exact = .finite s m e hm := by
  have hdouble : e - ((0 : Nat) : Int) = e := by omega
  refine h.round_of_shift s hm 0 ((h.shift hm k).trans (by rw [hdouble])) ?_
  rw [Nat.pow_zero, Nat.mul_one]
  rfl

/-- The parts of the number one. -/
def unit : UnpackedFloat := .finite .positive (2 ^ 52) (-52) (by decide)

theorem sign_mul_positive (s : Sign) : s * .positive = s := by cases s <;> rfl

theorem positive_mul_sign (s : Sign) : .positive * s = s := by cases s <;> rfl

/-- Multiplying by one changes nothing. -/
theorem mul_unit (x : Float) : mul .binary64 (unpacked x) unit = unpacked x := by
  rcases hx : unpacked x with s | _ | s | ⟨s, m, e, hm⟩
  · rw [unit, mul, sign_mul_positive]
  · rfl
  · rw [unit, mul, sign_mul_positive]
  · rw [unit, mul, sign_mul_positive]
    exact (final_of_unpacked hx).round s hm 52

theorem unit_mul (x : Float) : mul .binary64 unit (unpacked x) = unpacked x := by
  rcases hx : unpacked x with s | _ | s | ⟨s, m, e, hm⟩
  · rw [unit, mul, positive_mul_sign]
  · rfl
  · rw [unit, mul, positive_mul_sign]
  · rw [unit, mul, positive_mul_sign, Nat.mul_comm, Int.add_comm]
    exact (final_of_unpacked hx).round s hm 52

/-! ## Packing loses nothing that fits -/

theorem ofBitVec_toBitVec (s : Sign) : Sign.ofBitVec s.toBitVec = s := by cases s <;> rfl

/-- The largest exponent of a finite double. -/
theorem le_of_unpacked {x : Float} {s : Sign} {m : Nat} {e : Int} {hm : 0 < m}
    (h : unpacked x = .finite s m e hm) : e ≤ 971 := by
  have he : (@unpackExponent .binary64 x.toModel.toBits.toBitVec).toNat < 2 ^ 11 :=
    BitVec.isLt _
  simp only [unpacked, Float.Model.unpack, UnpackedFloat.unpack] at h
  split at h
  · split at h <;> cases h
  · next hinf =>
    have hne : (@unpackExponent .binary64 x.toModel.toBits.toBitVec).toNat ≠ 2047 :=
      fun heq => hinf (BitVec.eq_of_toNat_eq heq)
    split at h
    · next hzero =>
      split at h
      · cases h
      · injection h with _ _ hexp
        rw [hzero, exponent_field] at hexp
        subst hexp
        decide
    · injection h with _ _ hexp
      rw [exponent_field] at hexp
      omega

theorem finite_congr {s : Sign} {m n : Nat} {e f : Int} {hm : 0 < m} (hn : 0 < n) (hmn : m = n)
    (hef : e = f) : UnpackedFloat.finite s m e hm = .finite s n f hn := by
  subst hmn hef
  rfl

/-- The fields of a double with 53 digits. -/
theorem pack_normal {m : Nat} {e : Int} (hlow : 2 ^ 52 ≤ m) (hhigh : m < 2 ^ 53)
    (hge : -1074 ≤ e) (hle : e ≤ 971) (s : Sign) (hm : 0 < m) :
    UnpackedFloat.pack .binary64 (.finite s m e hm) =
      packComponents .binary64 s (BitVec.ofNat 11 (e + 1075).toNat) (BitVec.ofNat 52 m) := by
  have hbiased : (e + Format.binary64.exponentBias +
      Format.binary64.mantissaBitsWithoutImplicit).toNat = (e + 1075).toNat := by
    show (e + 1023 + 52).toNat = _
    omega
  have hfit : ¬ 2 ^ Format.binary64.exponentBits ≤ (e + 1075).toNat + 1 := by
    show ¬ 2048 ≤ _
    omega
  have hdigits : m.log2 + 1 = Format.binary64.mantissaBits := by
    rw [log2_of_normal hlow hhigh]
    rfl
  simp only [UnpackedFloat.pack, hbiased, if_neg hfit, if_pos hdigits]

/-- The fields of a double with the least exponent. -/
theorem pack_subnormal {m : Nat} (hlt : m < 2 ^ 52) (s : Sign) (hm : 0 < m) :
    UnpackedFloat.pack .binary64 (.finite s m (-1074) hm) =
      packComponents .binary64 s 0#11 (BitVec.ofNat 52 m) := by
  have hfit : ¬ 2 ^ Format.binary64.exponentBits ≤ ((-1074 : Int) + Format.binary64.exponentBias +
      Format.binary64.mantissaBitsWithoutImplicit).toNat + 1 := by decide
  have hdigits : m.log2 + 1 ≠ Format.binary64.mantissaBits := by
    have hlog := (Nat.log2_lt (Nat.ne_of_gt hm)).mpr hlt
    show m.log2 + 1 ≠ 53
    omega
  simp only [UnpackedFloat.pack, if_neg hfit, if_neg hdigits]

theorem unpack_normal (s : Sign) {b : BitVec 11} (f : BitVec 52) (hinf : b ≠ -1#11)
    (hzero : b ≠ 0#11) :
    UnpackedFloat.unpack .binary64 (packComponents .binary64 s b f) =
      .finite s (2 ^ 52 + f.toNat) (b.toNat - 1075) (by omega) := by
  unfold UnpackedFloat.unpack
  simp only [unpackSign_packComponents, unpackExponent_packComponents,
    unpackMantissa_packComponents, ofBitVec_toBitVec, if_neg hinf, if_neg hzero, implicit_toNat,
    exponent_field]

theorem unpack_subnormal (s : Sign) (f : BitVec 52) (hf : 0 < f.toNat) :
    UnpackedFloat.unpack .binary64 (packComponents .binary64 s 0#11 f) =
      .finite s f.toNat (-1074) hf := by
  have hne : ¬ f = 0#52 := by
    rintro rfl
    exact absurd hf (by decide)
  unfold UnpackedFloat.unpack
  simp only [unpackSign_packComponents, unpackExponent_packComponents,
    unpackMantissa_packComponents, ofBitVec_toBitVec, dif_neg hne]
  rfl
/-- **A double that needs no rounding is not changed by packing it.** -/
theorem unpacked_packed {m : Nat} {e : Int} (h : Final m e) (he : e ≤ 971) (s : Sign)
    (hm : 0 < m) : unpacked (packed (.finite s m e hm)) = .finite s m e hm := by
  obtain ⟨hlt, hge, hnormal⟩ := h
  show UnpackedFloat.unpack .binary64 (UnpackedFloat.pack .binary64 (.finite s m e hm)) = _
  rcases Nat.lt_or_ge m (2 ^ 52) with hsmall | hlarge
  · obtain rfl : e = -1074 := hnormal.resolve_left (by omega)
    have hfield : (BitVec.ofNat 52 m).toNat = m := by
      rw [BitVec.toNat_ofNat, Nat.mod_eq_of_lt hsmall]
    rw [pack_subnormal hsmall, unpack_subnormal s _ (by omega)]
    exact finite_congr hm hfield rfl
  · have hfield : (BitVec.ofNat 11 (e + 1075).toNat).toNat = (e + 1075).toNat := by
      rw [BitVec.toNat_ofNat]
      exact Nat.mod_eq_of_lt (by omega)
    rw [pack_normal hlarge hlt hge he, unpack_normal]
    · refine finite_congr hm ?_ ?_
      · rw [BitVec.toNat_ofNat]
        omega
      · rw [hfield]
        omega
    · intro hinf
      rw [hinf] at hfield
      have hfield : 2047 = (e + 1075).toNat := hfield
      omega
    · intro hzero
      rw [hzero] at hfield
      have hfield : 0 = (e + 1075).toNat := hfield
      omega

/-! ## The same, but for the signs of zeros -/

/-- The same parts, or zero twice. -/
inductive Same : UnpackedFloat → UnpackedFloat → Prop where
  | refl (u : UnpackedFloat) : Same u u
  | zero (s t : Sign) : Same (.zero s) (.zero t)

theorem finite_eq_of_compare {s : Sign} {m n : Nat} {e f : Int} (hm : 0 < m) (hn : 0 < n)
    (h : (compare e f).then (compare m n) = .eq) :
    UnpackedFloat.finite s m e hm = .finite s n f hn := by
  rw [Ordering.then_eq_eq, Int.compare_eq_eq, Nat.compare_eq_eq] at h
  exact finite_congr hn h.2 h.1

/-- Parts that compare equal are the same. -/
theorem same_of_compare {u v : UnpackedFloat} (h : u.compare v = some .eq) : Same u v := by
  rcases u with (_ | _) | _ | s | ⟨(_ | _), m, e, hm⟩ <;>
    rcases v with (_ | _) | _ | t | ⟨(_ | _), n, f, hn⟩
  case zero.zero => exact .zero s t
  case infinity.negative.infinity.negative => exact .refl _
  case infinity.positive.infinity.positive => exact .refl _
  case finite.negative.finite.negative =>
    have h := Ordering.swap_eq_eq.mp (Option.some.inj h)
    exact finite_eq_of_compare hm hn h ▸ .refl _
  case finite.positive.finite.positive =>
    exact finite_eq_of_compare hm hn (Option.some.inj h) ▸ .refl _
  all_goals exact nomatch h

theorem compare_zero_left (s t : Sign) (v : UnpackedFloat) :
    (UnpackedFloat.zero s).compare v = (UnpackedFloat.zero t).compare v := by
  rcases v with (_ | _) | _ | _ | ⟨(_ | _), _, _, _⟩ <;> rfl

theorem compare_zero_right (u : UnpackedFloat) (s t : Sign) :
    u.compare (.zero s) = u.compare (.zero t) := by
  rcases u with (_ | _) | _ | _ | ⟨(_ | _), _, _, _⟩ <;> rfl

/-- The signs of zeros matter to an operation for the sign of a zero at most. -/
structure RespectsZeros (op : UnpackedFloat → UnpackedFloat → UnpackedFloat) : Prop where
  left (s t : Sign) (v : UnpackedFloat) : Same (op (.zero s) v) (op (.zero t) v)
  right (u : UnpackedFloat) (s t : Sign) : Same (op u (.zero s)) (op u (.zero t))

theorem add_respectsZeros : RespectsZeros (add .binary64) := by
  refine ⟨fun s t v => ?_, fun v s t => ?_⟩ <;> rcases v with _ | _ | r | _
  case zero => cases s <;> cases t <;> cases r <;> first | exact .refl _ | exact .zero _ _
  case zero => cases s <;> cases t <;> cases r <;> first | exact .refl _ | exact .zero _ _
  all_goals exact .refl _

theorem sub_respectsZeros : RespectsZeros (sub .binary64) := by
  refine ⟨fun s t v => ?_, fun v s t => ?_⟩ <;> rcases v with _ | _ | r | _
  case zero => cases s <;> cases t <;> cases r <;> first | exact .refl _ | exact .zero _ _
  case zero => cases s <;> cases t <;> cases r <;> first | exact .refl _ | exact .zero _ _
  all_goals exact .refl _

theorem mul_respectsZeros : RespectsZeros (mul .binary64) := by
  refine ⟨fun s t v => ?_, fun v s t => ?_⟩ <;> rcases v with _ | _ | _ | _ <;>
    first | exact .refl _ | exact .zero _ _

theorem same_mul_zero {u : UnpackedFloat} (hu : u.isFinite = true) (s : Sign) :
    Same (mul .binary64 u (.zero s)) (.zero s) := by
  rcases u with _ | _ | _ | _
  case notANumber => exact nomatch hu
  case infinity => exact nomatch hu
  all_goals exact .zero _ _

theorem same_zero_mul (s : Sign) {v : UnpackedFloat} (hv : v.isFinite = true) :
    Same (mul .binary64 (.zero s) v) (.zero s) := by
  rcases v with _ | _ | _ | _
  case notANumber => exact nomatch hv
  case infinity => exact nomatch hv
  all_goals exact .zero _ _

theorem div_zero_left (s t : Sign) (v : UnpackedFloat) :
    Same (div .binary64 (.zero s) v) (div .binary64 (.zero t) v) := by
  rcases v with _ | _ | _ | _ <;> first | exact .refl _ | exact .zero _ _

/-- A zero is neutral in additions, but for the sign of another zero. -/
theorem same_add_zero (u : UnpackedFloat) (s : Sign) : Same (add .binary64 u (.zero s)) u := by
  rcases u with _ | _ | r | _
  case zero => cases s <;> cases r <;> first | exact .refl _ | exact .zero _ _
  all_goals exact .refl _

theorem same_zero_add (s : Sign) (v : UnpackedFloat) : Same (add .binary64 (.zero s) v) v := by
  rcases v with _ | _ | r | _
  case zero => cases s <;> cases r <;> first | exact .refl _ | exact .zero _ _
  all_goals exact .refl _

theorem same_sub_zero (u : UnpackedFloat) (s : Sign) : Same (sub .binary64 u (.zero s)) u := by
  rcases u with _ | _ | r | _
  case zero => cases s <;> cases r <;> first | exact .refl _ | exact .zero _ _
  all_goals exact .refl _

end CircuitExpr.Binary64
