import Mathlib
import CircuitExpr.Decimal.Digits
import CircuitExpr.Decimal.Read
import CircuitExpr.Proofs.Numeric.Rounding

/-!
# Decimal numbers rounded to doubles

A decimal number is a product or a quotient of two whole numbers, and rounding it is one
multiplication or division of doubles: with mantissas of any length, or on doubles where both
numbers are exact. Either way the number is rounded once, so every decimal around a double is
read as this double.

## Main statements

* `RoundsTo.mul`, `RoundsTo.div` — products and quotients around a double
* `RoundsTo.ofScientific_mul`, `RoundsTo.ofScientific_div` — decimals around a double
* `Decimal.nearest_eq` — the double nearest to a decimal
-/

namespace CircuitExpr

namespace Binary64

open Float.Model (Format UnpackedFloat totalExponent)
open Float.Model.UnpackedFloat

variable {q : ℚ} {m : ℕ} {e : ℤ}

/-! ## Products and quotients -/

theorem RoundsTo.mul {m₁ m₂ : ℕ} {e₁ e₂ : ℤ} (h : RoundsTo (m₁ * 2 ^ e₁ * (m₂ * 2 ^ e₂)) m e)
    (hfinal : Final m e) (s t : Sign) (hm : 0 < m) (h₁ : 0 < m₁) (h₂ : 0 < m₂)
    (hsize : 2 ^ 52 ≤ m₁ * m₂) :
    mul .binary64 (.finite s m₁ e₁ h₁) (.finite t m₂ e₂ h₂) = .finite (s * t) m e hm := by
  rw [UnpackedFloat.mul]
  refine h.round hfinal _ hm (.inl hsize) ?_
  show _ = _
  have hunit : (2 : ℚ) ^ (e₁ + e₂) ≠ 0 := by positivity
  rw [div_eq_iff hunit, zpow_add₀ two_ne_zero]
  push_cast
  ring

/-- A fraction below one behind a whole number. -/
theorem describes_mixed (k : ℕ) {r d : ℕ} (hr : r < d) :
    Describes (.ofMantissaAndAccuracy k (accuracyOfFraction r d)) (k + r / d) := by
  have hpos : (0 : ℚ) < d := by exact_mod_cast Nat.zero_lt_of_lt hr
  have hone : (r / d : ℚ) < 1 := by
    rw [div_lt_one hpos]
    exact_mod_cast hr
  rw [accuracyOfFraction]
  split
  · next hzero =>
    show _ = _
    rw [hzero, Nat.cast_zero, zero_div, add_zero]
  · next hne =>
    have hzero : (0 : ℚ) < r / d := div_pos (by exact_mod_cast Nat.pos_of_ne_zero hne) hpos
    cases hcompare : compare (2 * r) d with
    | lt =>
      have hlt : (2 * r : ℚ) < d := by exact_mod_cast Nat.compare_eq_lt.mp hcompare
      have hhalf : (r / d : ℚ) < 1 / 2 := by
        rw [div_lt_iff₀ hpos]
        linarith
      exact ⟨by linarith, by linarith⟩
    | eq =>
      have heq : (2 * r : ℚ) = d := by exact_mod_cast Nat.compare_eq_eq.mp hcompare
      have hhalf : (r / d : ℚ) = 1 / 2 := by
        rw [div_eq_iff hpos.ne']
        linarith
      show _ = _
      rw [hhalf]
    | gt =>
      have hgt : (d : ℚ) < 2 * r := by exact_mod_cast Nat.compare_eq_gt.mp hcompare
      have hhalf : (1 / 2 : ℚ) < r / d := by
        rw [lt_div_iff₀ hpos]
        linarith
      exact ⟨by linarith, by linarith⟩

/-- The remainder of a division says how the quotient goes on behind the point. -/
theorem describes_quotient (n : ℕ) {d : ℕ} (hd : 0 < d) :
    Describes (.ofMantissaAndAccuracy (n / d) (accuracyOfFraction (n % d) d)) (n / d) := by
  have hpos : (d : ℚ) ≠ 0 := by exact_mod_cast hd.ne'
  have hparts : (n / d : ℚ) = (n / d : ℕ) + (n % d : ℕ) / d := by
    rw [eq_comm, add_div' _ _ _ hpos, div_left_inj' hpos, mul_comm]
    exact_mod_cast Nat.div_add_mod n d
  rw [hparts]
  exact describes_mixed _ (Nat.mod_lt n hd)

/-- A division is carried on until its quotient has enough digits. -/
theorem suffices_divCore {m₁ m₂ : ℕ} {e₁ e₂ : ℤ} (h₁ : 0 < m₁) (h₂ : 0 < m₂)
    (he : -1074 ≤ e₁ - e₂) :
    Suffices (divCore .binary64 m₁ e₁ m₂ e₂).1 (divCore .binary64 m₁ e₁ m₂ e₂).2.1 := by
  simp only [divCore, targetExponent_eq, totalExponent, Nat.shiftLeft_eq]
  generalize hT : min (e₁ - e₂) (max (m₁.log2 + 1 + e₁ - (m₂.log2 + 1 + e₂) - 53) (-1074)) = T
  generalize hk : (e₁ - e₂ - T).toNat = k
  by_cases hleast : T = -1074
  · exact .inr hleast
  · left
    rw [Nat.le_div_iff_mul_le h₂]
    -- The dividend has at least 53 digits more than the divisor.
    have hdigits : m₂.log2 + 53 ≤ m₁.log2 + k := by omega
    have hdivisor : m₂ < 2 ^ (m₂.log2 + 1) := Nat.lt_log2_self
    calc 2 ^ 52 * m₂ ≤ 2 ^ 52 * 2 ^ (m₂.log2 + 1) := Nat.mul_le_mul_left _ hdivisor.le
      _ = 2 ^ (m₂.log2 + 53) := by rw [← pow_add]; congr 1; omega
      _ ≤ 2 ^ (m₁.log2 + k) := Nat.pow_le_pow_right (by decide) hdigits
      _ = 2 ^ m₁.log2 * 2 ^ k := pow_add _ _ _
      _ ≤ m₁ * 2 ^ k := Nat.mul_le_mul_right _ (Nat.log2_self_le h₁.ne')

theorem RoundsTo.div {m₁ m₂ : ℕ} {e₁ e₂ : ℤ} (h : RoundsTo (m₁ * 2 ^ e₁ / (m₂ * 2 ^ e₂)) m e)
    (hfinal : Final m e) (s t : Sign) (hm : 0 < m) (h₁ : 0 < m₁) (h₂ : 0 < m₂)
    (he : -1074 ≤ e₁ - e₂) :
    div .binary64 (.finite s m₁ e₁ h₁) (.finite t m₂ e₂ h₂) = .finite (s / t) m e hm := by
  rw [UnpackedFloat.div]
  refine h.round hfinal _ hm (suffices_divCore h₁ h₂ he) ?_
  generalize hT : min (e₁ - e₂) _ = T
  have hpower : (2 : ℚ) ^ e₁ = 2 ^ e₂ * 2 ^ T * 2 ^ (e₁ - e₂ - T).toNat := by
    rw [← zpow_natCast, ← zpow_add₀ two_ne_zero, ← zpow_add₀ two_ne_zero]
    congr 1
    omega
  have hquotient : (m₁ * 2 ^ e₁ / (m₂ * 2 ^ e₂) / 2 ^ T : ℚ) =
      (m₁ <<< (e₁ - e₂ - T).toNat : ℕ) / m₂ := by
    rw [hpower, Nat.shiftLeft_eq]
    push_cast
    field_simp
  rw [hquotient]
  exact describes_quotient _ h₂

/-! ## Whole numbers that are exact -/

/-- The parts of the double `n * 2 ^ k`. -/
def whole (n k : ℕ) (hn : 0 < n) : UnpackedFloat :=
  .finite .positive (n * 2 ^ (52 - n.log2)) (n.log2 - 52 + k)
    (Nat.mul_pos hn (Nat.two_pow_pos _))

theorem final_whole {n : ℕ} (hn : 0 < n) (hlt : n < 2 ^ 53) (k : ℕ) :
    2 ^ 52 ≤ n * 2 ^ (52 - n.log2) ∧ Final (n * 2 ^ (52 - n.log2)) (n.log2 - 52 + k) := by
  have hlog := (Nat.log2_lt hn.ne').mpr hlt
  have hdigits : 2 ^ 52 = 2 ^ n.log2 * 2 ^ (52 - n.log2) := by
    rw [← pow_add]
    congr 1
    omega
  have hlow : 2 ^ 52 ≤ n * 2 ^ (52 - n.log2) := by
    rw [hdigits]
    exact Nat.mul_le_mul_right _ (Nat.log2_self_le hn.ne')
  refine ⟨hlow, ⟨?_, by omega, .inl hlow⟩⟩
  calc n * 2 ^ (52 - n.log2) < 2 ^ (n.log2 + 1) * 2 ^ (52 - n.log2) :=
        Nat.mul_lt_mul_of_pos_right Nat.lt_log2_self (Nat.two_pow_pos _)
    _ = 2 ^ 53 := by rw [← pow_add]; congr 1; omega

theorem value_whole {n : ℕ} (hn : 0 < n) (hlt : n < 2 ^ 53) (k : ℕ) :
    ((n * 2 ^ (52 - n.log2) : ℕ) * 2 ^ (n.log2 - 52 + k : ℤ) : ℚ) = n * 2 ^ k := by
  have hlog := (Nat.log2_lt hn.ne').mpr hlt
  push_cast
  rw [mul_assoc, ← zpow_natCast, ← zpow_natCast, ← zpow_add₀ two_ne_zero]
  congr 2
  omega

theorem unpacked_toFloat {n : ℕ} (hn : 0 < n) (hlt : n < 2 ^ 53) :
    unpacked n.toUInt64.toFloat = whole n 0 hn := by
  have hlog := (Nat.log2_lt hn.ne').mpr hlt
  obtain ⟨-, hfinal⟩ := final_whole hn hlt 0
  have hnat : n.toUInt64.toNat = n := UInt64.toNat_ofNat_of_lt' (by
    show n < 2 ^ 64
    omega)
  have hpositive : compare (n : ℤ) 0 = .gt := Int.compare_eq_gt.mpr (by omega)
  have htarget : Format.binary64.targetExponent (totalExponent n 0) = n.log2 - 52 := by
    rw [targetExponent_eq, totalExponent]
    omega
  have hshift : (0 - ((n.log2 : ℤ) - 52)).toNat = 52 - n.log2 := by omega
  have hround : UnpackedFloat.ofNat .binary64 n = whole n 0 hn := by
    have h := hfinal.round .positive (Nat.mul_pos hn (Nat.two_pow_pos _)) 0
    rw [UnpackedFloat.ofNat, ofInt, UnpackedFloat.normalize, hpositive]
    simp only [UnpackedFloat.round, Int.toNat_natCast, htarget, decreaseExponent, hshift,
      Nat.shiftLeft_eq]
    rw [pow_zero, mul_one] at h
    refine Eq.trans ?_ h
    congr 1
    omega
  show unpacked (packed (UnpackedFloat.ofNat .binary64 n.toUInt64.toNat)) = _
  rw [hnat, hround]
  exact unpacked_packed hfinal (by omega) .positive _

theorem five_pow_pos (k : ℕ) : 0 < 5 ^ k := Nat.pow_pos (by decide)

theorem five_pow_lt {k : ℕ} (hk : k < 23) : 5 ^ k < 2 ^ 53 :=
  (Nat.pow_le_pow_right (by decide) (Nat.le_of_lt_succ hk)).trans_lt (by decide : 5 ^ 22 < 2 ^ 53)

/-- The powers of ten in the table are exact. -/
theorem unpacked_powerOfTen (k : ℕ) (hk : k < Float.exactlyRepresentablePowersOfTen.size) :
    unpacked Float.exactlyRepresentablePowersOfTen[k] = whole (5 ^ k) k (five_pow_pos k) := by
  have htable : ∀ k : Fin 23, Float.exactlyRepresentablePowersOfTen[k] =
      packed (whole (5 ^ k.val) k (five_pow_pos k)) := by decide +kernel
  have hbound : k < 23 := hk
  obtain ⟨-, hfinal⟩ := final_whole (five_pow_pos k) (five_pow_lt hbound) k
  have hlog := (Nat.log2_lt (five_pow_pos k).ne').mpr (five_pow_lt hbound)
  exact (congrArg unpacked (htable ⟨k, hk⟩)).trans
    (unpacked_packed hfinal (by omega) .positive _)

/-! ## Decimals -/

theorem two_pow_le_ten_pow {j k : ℕ} (h : j ≤ 3 * k) : (2 : ℚ) ^ j ≤ 10 ^ k := by
  calc (2 : ℚ) ^ j ≤ 2 ^ (3 * k) := pow_le_pow_right₀ one_le_two h
    _ = (2 ^ 3) ^ k := pow_mul _ _ _
    _ ≤ 10 ^ k := pow_le_pow_left₀ (by positivity) (by norm_num) k

namespace RoundsTo

/-- The numbers around finite doubles are neither too small nor too large. -/
theorem bounds (h : RoundsTo q m e) (hfinal : Final m e) (hm : 0 < m) (he : e ≤ 971) :
    (2 ^ 1075)⁻¹ ≤ q ∧ q < 2 ^ 1024 := by
  have hreach : (reach m e : ℚ) ≤ 2 := by exact_mod_cast reach_le m e
  have hmantissa : (1 : ℚ) ≤ m := by exact_mod_cast hm
  have hleast := hfinal.ge
  constructor
  · calc ((2 : ℚ) ^ 1075)⁻¹ = 2 ^ (-1075 : ℤ) := by rw [zpow_neg, zpow_ofNat]
      _ ≤ 2 ^ (1 + (e - 2)) := zpow_le_zpow_right₀ one_le_two (by omega)
      _ = 2 * 2 ^ (e - 2) := by rw [zpow_add₀ two_ne_zero, zpow_one]
      _ ≤ (4 * m - reach m e) * 2 ^ (e - 2) :=
        mul_le_mul_of_nonneg_right (by linarith) (by positivity)
      _ ≤ q := h.low
  · calc q < 2 ^ (e + 53) := h.lt_size hfinal
      _ ≤ 2 ^ (1024 : ℤ) := zpow_le_zpow_right₀ one_le_two (by omega)
      _ = 2 ^ 1024 := zpow_ofNat _ _

variable {N k : ℕ}

/-- Numbers that are exact as doubles, and a power of ten that is. -/
theorem value_whole_ten (hN : 0 < N) (hlt : N < 2 ^ 53) (hk : k < 23) :
    ((N * 2 ^ (52 - N.log2) : ℕ) * 2 ^ (N.log2 - 52 + (0 : ℕ) : ℤ) : ℚ) = N ∧
      ((5 ^ k * 2 ^ (52 - (5 ^ k).log2) : ℕ) * 2 ^ ((5 ^ k).log2 - 52 + k : ℤ) : ℚ) = 10 ^ k := by
  rw [value_whole hN hlt, value_whole (five_pow_pos k) (five_pow_lt hk)]
  push_cast
  rw [pow_zero, mul_one, ← mul_pow]
  norm_num

/-- A product of a whole number and a power of ten. -/
theorem ofScientific_mul (h : RoundsTo (N * 10 ^ k) m e) (hfinal : Final m e) (hm : 0 < m)
    (he : e ≤ 971) : Float.ofScientific N false k = packed (.finite .positive m e hm) := by
  obtain ⟨hbelow, habove⟩ := h.bounds hfinal hm he
  have hpos : 0 < N := by
    refine Nat.pos_of_ne_zero ?_
    rintro rfl
    rw [Nat.cast_zero, zero_mul] at hbelow
    exact absurd hbelow (not_le.mpr (by positivity))
  unfold Float.ofScientific
  split
  · next hfast =>
    obtain ⟨hN, hk⟩ := hfast
    obtain ⟨hnumber, hpower⟩ := value_whole_ten hpos hN (Nat.lt_succ_of_le hk)
    show packed (UnpackedFloat.mul .binary64 (unpacked _) (unpacked _)) = _
    rw [unpacked_toFloat hpos hN, unpacked_powerOfTen]
    rw [← hnumber, ← hpower] at h
    have hsize := (final_whole hpos hN 0).1
    exact congrArg packed (h.mul hfinal .positive .positive hm _ _
      (hsize.trans (Nat.le_mul_of_pos_right _ (Nat.mul_pos (five_pow_pos k) (Nat.two_pow_pos _)))))
  · show packed (UnpackedFloat.ofScientific .binary64 N (k : ℤ)) = _
    have hlarge : ¬ (k : ℤ) > 2 ^ Format.binary64.exponentBits := by
      intro hk
      have hk : (2048 : ℤ) < k := hk
      have hten : (2 : ℚ) ^ 1024 ≤ 10 ^ k := two_pow_le_ten_pow (by omega)
      have hN : (1 : ℚ) ≤ N := by exact_mod_cast hpos
      refine absurd (habove.trans_le hten) (not_lt.mpr ?_)
      exact le_mul_of_one_le_left (by positivity) hN
    have hsmall : ¬ (k : ℤ) < -((2 ^ Format.binary64.exponentBits : ℤ) + N.log2) := by
      show ¬ (k : ℤ) < -(2048 + (N.log2 : ℤ))
      omega
    rw [UnpackedFloat.ofScientific, dif_neg hpos.ne', if_neg hlarge, if_neg hsmall,
      if_pos (Int.natCast_nonneg k)]
    simp only [Int.toNat_natCast]
    have hvalue : ((N <<< 53 : ℕ) * 2 ^ (-(53 : ℕ) : ℤ) * ((10 ^ k : ℕ) * 2 ^ (0 : ℤ)) : ℚ) =
        N * 10 ^ k := by
      rw [Nat.shiftLeft_eq, zpow_neg, zpow_natCast, zpow_zero, mul_one, Nat.cast_mul, Nat.cast_pow,
        Nat.cast_pow, Nat.cast_ofNat, Nat.cast_ofNat, mul_inv_cancel_right₀ (by positivity)]
    have hsize : 2 ^ 52 ≤ (N <<< 53) * 10 ^ k := by
      rw [Nat.shiftLeft_eq, mul_comm N, mul_assoc]
      exact (Nat.pow_le_pow_right (by decide) (by decide)).trans
        (Nat.le_mul_of_pos_right _ (Nat.mul_pos hpos (Nat.pow_pos (by decide))))
    exact congrArg packed ((hvalue.symm ▸ h).mul hfinal .positive .positive hm _ _ hsize)

/-- A quotient of a whole number and a power of ten. -/
theorem ofScientific_div (h : RoundsTo (N / 10 ^ k) m e) (hfinal : Final m e) (hm : 0 < m)
    (he : e ≤ 971) (hk : k ≠ 0) :
    Float.ofScientific N true k = packed (.finite .positive m e hm) := by
  obtain ⟨hbelow, habove⟩ := h.bounds hfinal hm he
  have hpos : 0 < N := by
    refine Nat.pos_of_ne_zero ?_
    rintro rfl
    rw [Nat.cast_zero, zero_div] at hbelow
    exact absurd hbelow (not_le.mpr (by positivity))
  unfold Float.ofScientific
  split
  · next hfast =>
    obtain ⟨hN, hk⟩ := hfast
    have hk := Nat.lt_succ_of_le hk
    have hlog := (Nat.log2_lt (five_pow_pos k).ne').mpr (five_pow_lt hk)
    obtain ⟨hnumber, hpower⟩ := value_whole_ten hpos hN hk
    show packed (UnpackedFloat.div .binary64 (unpacked _) (unpacked _)) = _
    rw [unpacked_toFloat hpos hN, unpacked_powerOfTen]
    rw [← hnumber, ← hpower] at h
    exact congrArg packed (h.div hfinal .positive .positive hm _ _ (by omega))
  · obtain ⟨j, rfl⟩ := Nat.exists_eq_succ_of_ne_zero hk
    show packed (UnpackedFloat.ofScientific .binary64 N (-((j + 1 : ℕ) : ℤ))) = _
    have hlarge : ¬ (-((j + 1 : ℕ) : ℤ)) > 2 ^ Format.binary64.exponentBits := by
      show ¬ (2048 : ℤ) < _
      omega
    have hsmall : ¬ (-((j + 1 : ℕ) : ℤ)) < -((2 ^ Format.binary64.exponentBits : ℤ) + N.log2) := by
      intro hj
      have hj : (-((j + 1 : ℕ) : ℤ)) < -(2048 + (N.log2 : ℤ)) := hj
      have hten : (2 : ℚ) ^ (N.log2 + 1 + 1075) ≤ 10 ^ (j + 1) := two_pow_le_ten_pow (by omega)
      have hdigits : (N : ℚ) < 2 ^ (N.log2 + 1) := by exact_mod_cast Nat.lt_log2_self
      rw [le_div_iff₀ (by positivity), inv_mul_le_iff₀ (by positivity)] at hbelow
      refine absurd (hten.trans hbelow) (not_le.mpr ?_)
      rw [pow_add, mul_comm]
      exact mul_lt_mul_of_pos_right hdigits (by positivity)
    rw [UnpackedFloat.ofScientific, dif_neg hpos.ne', if_neg hlarge, if_neg hsmall,
      if_neg (by omega)]
    have hvalue : ((N : ℕ) * 2 ^ (0 : ℤ) / ((10 ^ (j + 1) : ℕ) * 2 ^ (0 : ℤ)) : ℚ) =
        N / 10 ^ (j + 1) := by
      rw [zpow_zero, mul_one, mul_one]
      push_cast
      rfl
    simp only [neg_neg, Int.toNat_natCast]
    exact congrArg packed ((hvalue.symm ▸ h).div hfinal .positive .positive hm _ _ (by decide))

end RoundsTo

end Binary64

namespace Decimal

open Float.Model (UnpackedFloat)
open Binary64

/-! ## The size of a number by the count of its digits -/

theorem lt_ten_pow_length (n : ℕ) : n < 10 ^ length n :=
  (Nat.length_toDigits_le_iff (by decide) Nat.length_toDigits_pos).mp le_rfl

theorem ten_pow_le_of_pos {n : ℕ} (hn : 0 < n) : 10 ^ (length n - 1) ≤ n := by
  by_contra hlt
  rcases Nat.eq_zero_or_pos (length n - 1) with hone | hmore
  · rw [hone, pow_zero] at hlt
    omega
  · have hle : length n ≤ length n - 1 :=
      (Nat.length_toDigits_le_iff (by decide) hmore).mpr (not_le.mp hlt)
    omega

/-! ## Reading -/

/-- **A decimal around a double is read as this double.** -/
theorem nearest_eq {x : Float} {m : ℕ} {e : ℤ} {hm : 0 < m}
    (hx : unpacked x = .finite .positive m e hm) {N : ℕ} {E : ℤ}
    (h : RoundsTo (N * 10 ^ E) m e) : nearest N E = x := by
  have hfinal := final_of_unpacked hx
  have he := le_of_unpacked hx
  have hpacked : packed (.finite .positive m e hm) = x := by
    rw [← hx, packed_unpacked]
  obtain ⟨hbelow, habove⟩ := h.bounds hfinal hm he
  have hunit : (0 : ℚ) < 10 ^ E := by positivity
  have hne : N ≠ 0 := by
    rintro rfl
    rw [Nat.cast_zero, zero_mul] at hbelow
    exact absurd hbelow (not_le.mpr (by positivity))
  have hlow := ten_pow_le_of_pos (Nat.pos_of_ne_zero hne)
  have hhigh := lt_ten_pow_length N
  have hlarge : ¬ 400 < (length N : ℤ) + E := by
    intro hsize
    have hten : (10 : ℚ) ^ (400 : ℕ) ≤ N * 10 ^ E := by
      calc (10 : ℚ) ^ (400 : ℕ) = 10 ^ (400 : ℤ) := (zpow_ofNat _ _).symm
        _ ≤ 10 ^ ((length N - 1 : ℕ) + E) := zpow_le_zpow_right₀ (by norm_num) (by omega)
        _ = 10 ^ (length N - 1) * 10 ^ E := by rw [zpow_add₀ (by norm_num), zpow_natCast]
        _ ≤ N * 10 ^ E := mul_le_mul_of_nonneg_right (by exact_mod_cast hlow) hunit.le
    exact absurd (hten.trans_lt habove) (not_lt.mpr (two_pow_le_ten_pow (by decide)))
  have hsmall : ¬ (length N : ℤ) + E < -400 := by
    intro hsize
    have hten : N * 10 ^ E < ((10 : ℚ) ^ (400 : ℕ))⁻¹ := by
      calc N * 10 ^ E < (10 : ℚ) ^ length N * 10 ^ E :=
            mul_lt_mul_of_pos_right (by exact_mod_cast hhigh) hunit
        _ = 10 ^ (length N + E) := by rw [zpow_add₀ (by norm_num), zpow_natCast]
        _ ≤ 10 ^ (-400 : ℤ) := zpow_le_zpow_right₀ (by norm_num) hsize.le
        _ = ((10 : ℚ) ^ (400 : ℕ))⁻¹ := by rw [zpow_neg, zpow_ofNat]
    refine absurd (hbelow.trans_lt hten) (not_lt.mpr ?_)
    exact inv_anti₀ (by positivity) (two_pow_le_ten_pow (by decide))
  rw [length] at hlarge hsmall
  simp only [nearest]
  rw [if_neg hne, if_neg hlarge, if_neg hsmall]
  split
  · next hE =>
    obtain ⟨k, rfl⟩ := Int.eq_ofNat_of_zero_le hE
    rw [zpow_natCast] at h
    exact (h.ofScientific_mul hfinal hm he).trans hpacked
  · next hE =>
    obtain ⟨k, rfl⟩ : ∃ k : ℕ, E = -(k : ℤ) := ⟨(-E).toNat, by omega⟩
    rw [zpow_neg, zpow_natCast, ← div_eq_mul_inv] at h
    rw [neg_neg, Int.toNat_natCast]
    exact (h.ofScientific_div hfinal hm he (by omega)).trans hpacked

end Decimal

end CircuitExpr
