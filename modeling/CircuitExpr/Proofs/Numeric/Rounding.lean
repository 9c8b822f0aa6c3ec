import Mathlib
import CircuitExpr.Proofs.Numeric.Packed

/-!
# Rounding to the nearest double

An operation on doubles computes some binary digits of its result and notes how the result goes
on behind them. That note survives when digits are dropped, and it is enough to find the nearest
whole number of units. So the outcome depends on the exact result alone: of all numbers, those
are rounded to a given double that lie half way to its neighbours at most.

## Main statements

* `Describes.shiftRight`, `Describes.nearest` — digits dropped and rounded
* `RoundsTo` — the numbers around a double that are rounded to it
* `RoundsTo.round` — they are
-/

namespace CircuitExpr.Binary64

open Float.Model (Format UnpackedFloat totalExponent)
open Float.Model.UnpackedFloat

/-! ## Digits and what follows them -/

/-- The digits of a number before the point, and how it goes on behind the point. -/
def Describes : ExtendedMantissa → ℚ → Prop
  | ⟨m, false, false⟩, r => r = m
  | ⟨m, false, true⟩, r => m < r ∧ r < m + 1 / 2
  | ⟨m, true, false⟩, r => r = m + 1 / 2
  | ⟨m, true, true⟩, r => m + 1 / 2 < r ∧ r < m + 1

namespace Describes

variable {em : ExtendedMantissa} {r : ℚ}

theorem bounds (h : Describes em r) : em.mantissa ≤ r ∧ r < em.mantissa + 1 := by
  obtain ⟨m, (_ | _), (_ | _)⟩ := em <;> simp only [Describes] at h ⊢ <;> constructor <;> linarith

/-- The last digit becomes the first one behind the point. -/
theorem shiftRightOne (h : Describes em r) : Describes em.shiftRightOne (r / 2) := by
  obtain ⟨m, b, s⟩ := em
  have hdigits : (2 * (m / 2 : ℕ) + (m % 2 : ℕ) : ℚ) = m := by exact_mod_cast Nat.div_add_mod m 2
  have hnonzero : (m % 2 != 0) = decide (m % 2 = 1) := by
    rcases Nat.mod_two_eq_zero_or_one m with hlast | hlast <;> rw [hlast] <;> rfl
  rw [ExtendedMantissa.shiftRightOne, hnonzero]
  rcases Nat.mod_two_eq_zero_or_one m with hlast | hlast <;> rw [hlast] at hdigits ⊢ <;>
    cases b <;> cases s <;>
    simp only [Describes, Bool.or_false, Bool.or_true, decide_true, decide_false,
      zero_ne_one] at h hdigits ⊢ <;>
    first | linarith | (constructor <;> linarith)

theorem shiftRight (h : Describes em r) (k : ℕ) : Describes (em >>> k) (r / 2 ^ k) := by
  show Describes (k.repeat ExtendedMantissa.shiftRightOne em) _
  induction k with
  | zero => simpa [Nat.repeat] using h
  | succ k ih =>
    rw [Nat.repeat, pow_succ, ← div_div]
    exact ih.shiftRightOne

end Describes

/-- The whole number that is nearest to a number; half way between two it is the even one. -/
structure Nearest (r : ℚ) (n : ℕ) : Prop where
  low : n - 1 / 2 ≤ r
  high : r ≤ n + 1 / 2
  odd : n % 2 = 1 → n - 1 / 2 ≠ r ∧ r ≠ n + 1 / 2

theorem Nearest.unique {r : ℚ} {m n : ℕ} (hm : Nearest r m) (hn : Nearest r n) : m = n := by
  wlog hlt : m < n generalizing m n with hswap
  · rcases lt_trichotomy m n with h | h | h
    · exact hswap hm hn h
    · exact h
    · exact (hswap hn hm h).symm
  have hle : (m + 1 : ℚ) ≤ n := by exact_mod_cast hlt
  -- Both can be nearest only half way between neighbours, and one of these is odd.
  have hnext : n = m + 1 := by
    have hge : (n : ℚ) ≤ m + 1 := by linarith [hm.high, hn.low]
    exact Nat.le_antisymm (by exact_mod_cast hge) hlt
  have hhalf : r = m + 1 / 2 := by linarith [hm.high, hn.low]
  subst hnext
  rcases Nat.mod_two_eq_zero_or_one m with heven | hodd
  · have hodd : (m + 1) % 2 = 1 := by omega
    refine absurd ?_ (hn.odd hodd).1
    push_cast
    linarith
  · exact absurd hhalf (hm.odd hodd).2

theorem Describes.nearest {em : ExtendedMantissa} {r : ℚ} (h : Describes em r) :
    Nearest r em.roundedMantissa := by
  obtain ⟨m, (_ | _), (_ | _)⟩ := em <;>
    simp only [Describes, ExtendedMantissa.roundedMantissa, ExtendedMantissa.accuracy,
      Accuracy.roundToNearestEven] at h ⊢
  · exact ⟨by linarith, by linarith, fun _ => ⟨fun h' => by linarith, fun h' => by linarith⟩⟩
  · exact ⟨by linarith, by linarith, fun _ => ⟨fun h' => by linarith, fun h' => by linarith⟩⟩
  · -- Half way: to the next number if this one is odd.
    rcases Nat.mod_two_eq_zero_or_one m with hlast | hlast <;> rw [hlast]
    · exact ⟨by push_cast; linarith, by push_cast; linarith, fun hodd => by omega⟩
    · exact ⟨by push_cast; linarith, by push_cast; linarith, fun hodd => by omega⟩
  · refine ⟨by push_cast; linarith, by push_cast; linarith, fun _ => ⟨fun h' => ?_, fun h' => ?_⟩⟩
    · push_cast at h'
      linarith
    · push_cast at h'
      linarith

/-! ## The numbers around a double -/

/--
By how many quarters of its last digit a number that is rounded to a double may lie below it.
Below a power of two the doubles lie twice as close.
-/
def reach (m : ℕ) (e : ℤ) : ℕ := if m = 2 ^ 52 ∧ -1074 < e then 1 else 2

/-- The numbers that are rounded to the double `m * 2 ^ e`. -/
structure RoundsTo (q : ℚ) (m : ℕ) (e : ℤ) : Prop where
  low : (4 * m - reach m e) * 2 ^ (e - 2) ≤ q
  high : q ≤ (4 * m + 2) * 2 ^ (e - 2)
  odd : m % 2 = 1 → (4 * m - reach m e) * 2 ^ (e - 2) ≠ q ∧ q ≠ (4 * m + 2) * 2 ^ (e - 2)

theorem reach_of_odd {m : ℕ} (h : m % 2 = 1) (e : ℤ) : reach m e = 2 := by
  refine if_neg fun hpower => ?_
  rw [hpower.1] at h
  exact absurd h (by decide)

theorem reach_le (m : ℕ) (e : ℤ) : reach m e ≤ 2 := by
  unfold reach
  split <;> decide

namespace RoundsTo

variable {q : ℚ} {m : ℕ} {e : ℤ}

theorem quarter (e : ℤ) : (2 : ℚ) ^ (e - 2) = 2 ^ e / 4 := by
  rw [zpow_sub₀ two_ne_zero]
  norm_num

/-- In units of the last digit, the mantissa is the nearest whole number. -/
theorem nearest (h : RoundsTo q m e) : Nearest (q / 2 ^ e) m := by
  have hunit : (0 : ℚ) < 2 ^ e := by positivity
  have hreach : (reach m e : ℚ) ≤ 2 := by exact_mod_cast reach_le m e
  obtain ⟨hlow, hhigh, hodd⟩ := h
  rw [quarter] at hlow hhigh hodd
  refine ⟨?_, ?_, fun hm => ?_⟩
  · rw [le_div_iff₀ hunit]
    nlinarith
  · rw [div_le_iff₀ hunit]
    linarith
  · obtain ⟨hne, hne'⟩ := hodd hm
    rw [reach_of_odd hm] at hne
    rw [ne_eq, ne_eq, eq_div_iff hunit.ne', div_eq_iff hunit.ne']
    refine ⟨fun heq => hne ?_, fun heq => hne' ?_⟩
    · push_cast
      linarith
    · linarith

/-- Below a power of two the next double is the power of two, in units of half the size. -/
theorem nearest_half (h : RoundsTo q (2 ^ 52) e) (he : -1074 < e) (hlt : q < 2 ^ (e + 52)) :
    Nearest (q / 2 ^ (e - 1)) (2 ^ 53) := by
  have hunit : (0 : ℚ) < 2 ^ (e - 1) := by positivity
  have hquarter : (2 : ℚ) ^ (e - 2) = 2 ^ (e - 1) / 2 := by
    rw [show e - 2 = e - 1 - 1 by ring, zpow_sub_one₀ two_ne_zero, div_eq_mul_inv]
  have hpower : (2 : ℚ) ^ (e + 52) = 2 ^ (e - 1) * 2 ^ 53 := by
    rw [← zpow_natCast, ← zpow_add₀ two_ne_zero]
    congr 1
    omega
  have hlow := h.low
  rw [reach, if_pos ⟨rfl, he⟩, hquarter] at hlow
  rw [hpower] at hlt
  refine ⟨?_, ?_, fun hm => absurd hm (by decide)⟩
  · rw [le_div_iff₀ hunit]
    push_cast at hlow ⊢
    linarith
  · rw [div_le_iff₀ hunit]
    push_cast
    linarith

/-- A power of two in quarters of a unit. -/
theorem quarters (e : ℤ) (k : ℕ) : (2 : ℚ) ^ (e + k) = 2 ^ (k + 2) * 2 ^ (e - 2) := by
  rw [← zpow_natCast, ← zpow_add₀ two_ne_zero]
  congr 1
  omega

/-- It has no more digits than the mantissa may have. -/
theorem lt_size (h : RoundsTo q m e) (hm : Final m e) : q < 2 ^ (e + 53) := by
  have hquarter : (0 : ℚ) < 2 ^ (e - 2) := by positivity
  have hmantissa : (m + 1 : ℚ) ≤ 2 ^ 53 := by exact_mod_cast hm.lt
  calc q ≤ (4 * m + 2) * 2 ^ (e - 2) := h.high
    _ < 2 ^ 55 * 2 ^ (e - 2) := by
      refine mul_lt_mul_of_pos_right ?_ hquarter
      linarith
    _ = 2 ^ (e + 53) := (quarters e 53).symm

/-- It has as many digits as the double, or the double is a power of two and the number is
below it. -/
theorem size_lt (h : RoundsTo q m e) (hm : 2 ^ 52 ≤ m) :
    2 ^ (e + 51) < q ∧ (q < 2 ^ (e + 52) → m = 2 ^ 52) := by
  have hquarter : (0 : ℚ) < 2 ^ (e - 2) := by positivity
  have hhalf : (2 : ℚ) ^ (e + 51) = 2 ^ 53 * 2 ^ (e - 2) := quarters e 51
  have hfull : (2 : ℚ) ^ (e + 52) = 2 ^ 54 * 2 ^ (e - 2) := quarters e 52
  have hreach : (reach m e : ℚ) ≤ 2 := by exact_mod_cast reach_le m e
  have hmantissa : (2 ^ 52 : ℚ) ≤ m := by exact_mod_cast hm
  constructor
  · refine lt_of_lt_of_le ?_ h.low
    rw [hhalf]
    refine mul_lt_mul_of_pos_right ?_ hquarter
    linarith
  · intro hlt
    by_contra hne
    have hnext : (2 ^ 52 + 1 : ℚ) ≤ m := by exact_mod_cast Nat.lt_of_le_of_ne hm (Ne.symm hne)
    rw [hfull] at hlt
    have hbelow := lt_of_mul_lt_mul_right (h.low.trans_lt hlt) hquarter.le
    linarith

end RoundsTo

/-! ## Rounding -/

/-- The digits of a number give its size. -/
theorem Describes.size {q : ℚ} {M : ℕ} {E : ℤ} {acc : Accuracy}
    (h : Describes (.ofMantissaAndAccuracy M acc) (q / 2 ^ E)) :
    q < 2 ^ totalExponent M E ∧ (M ≠ 0 → 2 ^ (totalExponent M E - 1) ≤ q) := by
  have hunit : (0 : ℚ) < 2 ^ E := by positivity
  have hmantissa : (ExtendedMantissa.ofMantissaAndAccuracy M acc).mantissa = M := by
    rcases acc with _ | _ | _ | _ <;> rfl
  obtain ⟨hlow, hhigh⟩ := h.bounds
  rw [hmantissa] at hlow hhigh
  rw [le_div_iff₀ hunit] at hlow
  rw [div_lt_iff₀ hunit] at hhigh
  have htotal : totalExponent M E = (M.log2 + 1 : ℕ) + E := by
    rw [totalExponent]
    push_cast
    rfl
  constructor
  · have hdigits : (M + 1 : ℚ) ≤ 2 ^ (M.log2 + 1) := by exact_mod_cast Nat.lt_log2_self
    rw [htotal, zpow_add₀ two_ne_zero, zpow_natCast]
    exact hhigh.trans_le (mul_le_mul_of_nonneg_right hdigits hunit.le)
  · intro hne
    have hdigits : (2 ^ M.log2 : ℚ) ≤ M := by exact_mod_cast Nat.log2_self_le hne
    rw [htotal, show ((M.log2 + 1 : ℕ) + E - 1 : ℤ) = (M.log2 : ℕ) + E by push_cast; ring,
      zpow_add₀ two_ne_zero, zpow_natCast]
    exact (mul_le_mul_of_nonneg_right hdigits hunit.le).trans hlow

/-- The digits of a number are enough to round it, if they fill a mantissa or go down to the
least exponent. -/
def Suffices (M : ℕ) (E : ℤ) : Prop := 2 ^ 52 ≤ M ∨ E = -1074

theorem Suffices.le_targetExponent {M : ℕ} {E : ℤ} (h : Suffices M E) :
    E ≤ Format.binary64.targetExponent (totalExponent M E) := by
  rw [targetExponent_eq, totalExponent]
  rcases h with h | rfl
  · have hlog := (Nat.le_log2 (Nat.ne_of_gt (Nat.lt_of_lt_of_le (by decide) h))).mpr h
    omega
  · omega

/-- Rounding a number that lies around a double aims at the exponent of this double, or at the
one below if the double is a power of two that the number does not reach. -/
theorem RoundsTo.targetExponent {q : ℚ} {m : ℕ} {e : ℤ} (h : RoundsTo q m e) (hm : Final m e)
    {M : ℕ} {E : ℤ} {acc : Accuracy} (hM : Suffices M E)
    (hd : Describes (.ofMantissaAndAccuracy M acc) (q / 2 ^ E)) :
    Format.binary64.targetExponent (totalExponent M E) = e ∨
      Format.binary64.targetExponent (totalExponent M E) = e - 1 ∧ m = 2 ^ 52 ∧ -1074 < e ∧
        q < 2 ^ (e + 52) := by
  obtain ⟨hlt, hle⟩ := hd.size
  have htwo : (1 : ℚ) < 2 := one_lt_two
  have htarget := targetExponent_eq (totalExponent M E)
  have hleast := hm.ge
  rcases lt_trichotomy (Format.binary64.targetExponent (totalExponent M E)) e with
    hbelow | heq | habove
  · have he : -1074 < e := by omega
    have hnormal : 2 ^ 52 ≤ m := hm.normal.resolve_right (by omega)
    obtain ⟨hsize, hpower⟩ := h.size_lt hnormal
    have hq : q < 2 ^ (e + 52) := hlt.trans_le ((zpow_le_zpow_iff_right₀ htwo).mpr (by omega))
    have hdigits := (zpow_lt_zpow_iff_right₀ htwo).mp (hsize.trans hlt)
    exact .inr ⟨by omega, hpower hq, he, hq⟩
  · exact .inl heq
  · have hne : M ≠ 0 := by
      rintro rfl
      have htotal : totalExponent 0 E = 1 + E := by
        rw [totalExponent, Nat.log2_zero]
        rfl
      rw [htotal] at htarget habove
      rcases hM with hM | hM
      · exact absurd hM (by decide)
      · omega
    have hdigits := (zpow_lt_zpow_iff_right₀ htwo).mp ((hle hne).trans_lt (h.lt_size hm))
    omega

/-- **The numbers around a double are rounded to it.** -/
theorem RoundsTo.round {q : ℚ} {m : ℕ} {e : ℤ} (h : RoundsTo q m e) (hfinal : Final m e)
    (s : Sign) (hm : 0 < m) {M : ℕ} {E : ℤ} {acc : Accuracy} (hM : Suffices M E)
    (hd : Describes (.ofMantissaAndAccuracy M acc) (q / 2 ^ E)) :
    roundWithAccuracy .binary64 s M E acc = .finite s m e hm := by
  have htarget := h.targetExponent hfinal hM hd
  have hle := hM.le_targetExponent
  generalize ht : Format.binary64.targetExponent (totalExponent M E) = t at htarget hle
  have hback : E + (t - E).toNat = t := by omega
  have hfirst : shiftToTargetExponent .binary64 M E acc =
      (ExtendedMantissa.ofMantissaAndAccuracy M acc >>> (t - E).toNat, t) := by
    rw [shiftToTargetExponent, ht, shiftToExponent, hback]
  have hshifted := hd.shiftRight (t - E).toNat
  rw [div_div, ← zpow_natCast, ← zpow_add₀ two_ne_zero, hback] at hshifted
  rcases htarget with rfl | ⟨rfl, rfl, he, hq⟩
  · refine hfinal.round_of_shift s hm 0 (hfirst.trans (congrArg _ (sub_zero _).symm)) ?_
    rw [pow_zero, mul_one]
    exact hshifted.nearest.unique h.nearest
  · refine hfinal.round_of_shift s hm 1 hfirst ?_
    exact hshifted.nearest.unique (h.nearest_half he hq)

end CircuitExpr.Binary64
