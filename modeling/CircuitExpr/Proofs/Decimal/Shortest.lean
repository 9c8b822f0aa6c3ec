import Mathlib
import CircuitExpr.Decimal.Shortest
import CircuitExpr.Proofs.Decimal.Nearest

/-!
# The shortest decimal lies around its double

Whatever the count of digits, a decimal is only taken if it lies in the interval of the double,
which is the interval of the numbers that are rounded to it. And one of them is taken: with
seventeen digits the units are so small that of the two multiples next to the double at least one
lies in the interval.

## Main statements

* `ten_pow_place_le` — the place of the first digit
* `Interval.roundsTo` — decimals that are taken lie around the double
* `Interval.exists_decimal` — seventeen digits suffice
* `exists_shortest` — the shortest decimal lies around the double
-/

namespace CircuitExpr.Decimal

open Binary64

/-! ## The place of the first digit -/

/-- The quotient reaches its first digit. -/
theorem ten_pow_place_le {num den : ℕ} (hnum : 0 < num) (hden : 0 < den) :
    (10 : ℚ) ^ place num den ≤ num / den := by
  have hpos : (0 : ℚ) < den := by exact_mod_cast hden
  rw [le_div_iff₀ hpos, place]
  split
  · next hle =>
    have hlength : 0 < length (num / den) := Nat.length_toDigits_pos
    have hwhole := ten_pow_le_of_pos (Nat.div_pos hle hden)
    have hexponent : (length (num / den) : ℤ) - 1 = (length (num / den) - 1 : ℕ) := by omega
    rw [hexponent, zpow_natCast]
    exact_mod_cast (Nat.mul_le_mul_right den hwhole).trans (Nat.div_mul_le_self num den)
  · have hwhole := lt_ten_pow_length ((den - 1) / num)
    rw [Nat.div_lt_iff_lt_mul hnum] at hwhole
    have hle : den ≤ 10 ^ length ((den - 1) / num) * num := by omega
    rw [zpow_neg, zpow_natCast, inv_mul_le_iff₀ (by positivity)]
    exact_mod_cast hle

/-! ## The interval of a double -/

section Interval

variable {s : Bool} {m : ℕ} {e : ℤ}

namespace Interval

theorem denominator_pos (b : Binary64) : 0 < (of b).denominator := by
  show 0 < 1 <<< (2 - b.exponent).toNat
  rw [Nat.one_shiftLeft]
  exact Nat.two_pow_pos _

/-- What the numbers of the interval stand for. -/
theorem quarters (e : ℤ) (n : ℕ) :
    ((n * 1 <<< (e - 2).toNat : ℕ) / (1 <<< (2 - e).toNat : ℕ) : ℚ) = n * 2 ^ (e - 2) := by
  have hpower : (2 : ℚ) ^ (e - 2).toNat = 2 ^ (e - 2) * 2 ^ (2 - e).toNat := by
    rw [← zpow_natCast, ← zpow_natCast, ← zpow_add₀ two_ne_zero]
    congr 1
    omega
  rw [Nat.one_shiftLeft, Nat.one_shiftLeft]
  push_cast
  rw [hpower, ← mul_assoc, mul_div_cancel_right₀ _ (by positivity)]

theorem low_eq (hm : 0 < m) : ((of ⟨s, m, e⟩).low / (of ⟨s, m, e⟩).denominator : ℚ) =
    (4 * m - reach m e) * 2 ^ (e - 2) := by
  have hreach := reach_le m e
  have hsub : ((4 * m - reach m e : ℕ) : ℚ) = 4 * m - reach m e := by
    rw [Nat.cast_sub (by omega)]
    push_cast
    rfl
  rw [← hsub, ← quarters]
  rfl

theorem value_eq : ((of ⟨s, m, e⟩).value / (of ⟨s, m, e⟩).denominator : ℚ) =
    4 * m * 2 ^ (e - 2) := by
  refine (quarters e (4 * m)).trans ?_
  push_cast
  rfl

theorem high_eq : ((of ⟨s, m, e⟩).high / (of ⟨s, m, e⟩).denominator : ℚ) =
    (4 * m + 2) * 2 ^ (e - 2) := by
  refine (quarters e (4 * m + 2)).trans ?_
  push_cast
  rfl

/-! ### Decimals in the interval -/

theorem le_of_below {closed : Bool} {a b : ℕ} (h : below closed a b = true) :
    a ≤ b ∧ (closed = false → a ≠ b) := by
  cases closed with
  | false =>
    have hlt : a < b := of_decide_eq_true h
    exact ⟨hlt.le, fun _ => hlt.ne⟩
  | true => exact ⟨of_decide_eq_true h, fun h => by cases h⟩

theorem below_of_lt {closed : Bool} {a b : ℕ} (h : a < b) : below closed a b = true := by
  cases closed with
  | false => exact decide_eq_true h
  | true => exact decide_eq_true h.le

theorem le_of_not_below {closed : Bool} {a b : ℕ} (h : ¬ below closed a b = true) : b ≤ a := by
  cases closed with
  | false => exact not_lt.mp fun hlt => h (decide_eq_true hlt)
  | true => exact (not_le.mp fun hle => h (decide_eq_true hle)).le

section Units

variable {i : Interval} (hi : 0 < i.denominator) (unit : ℤ) (a n : ℕ)
include hi

/-- Comparing a number of the interval with a multiple of the unit over a common denominator. -/
theorem scaled_units : ∃ d : ℚ, 0 < d ∧
    ((a * Nat.pow 10 (-unit).toNat : ℕ) : ℚ) = a / i.denominator * d ∧
      ((n * (i.denominator * Nat.pow 10 unit.toNat) : ℕ) : ℚ) = n * 10 ^ unit * d := by
  have hpos : (0 : ℚ) < i.denominator := by exact_mod_cast hi
  have hpower : (10 : ℚ) ^ unit.toNat = 10 ^ unit * 10 ^ (-unit).toNat := by
    rw [← zpow_natCast, ← zpow_natCast, ← zpow_add₀ (by norm_num)]
    congr 1
    omega
  refine ⟨i.denominator * 10 ^ (-unit).toNat, by positivity, ?_, ?_⟩
  · rw [← mul_assoc, div_mul_cancel₀ _ hpos.ne', Nat.cast_mul, Nat.pow_eq, Nat.cast_pow,
      Nat.cast_ofNat]
  · rw [Nat.cast_mul, Nat.cast_mul, Nat.pow_eq, Nat.cast_pow, Nat.cast_ofNat, hpower]
    ring

theorem scaled_le_iff : a * Nat.pow 10 (-unit).toNat ≤ n * (i.denominator * Nat.pow 10 unit.toNat) ↔
    (a / i.denominator : ℚ) ≤ n * 10 ^ unit := by
  obtain ⟨d, hd, ha, hn⟩ := scaled_units hi unit a n
  rw [← Nat.cast_le (α := ℚ), ha, hn, mul_le_mul_iff_left₀ hd]

theorem le_scaled_iff : n * (i.denominator * Nat.pow 10 unit.toNat) ≤ a * Nat.pow 10 (-unit).toNat ↔
    (n * 10 ^ unit : ℚ) ≤ a / i.denominator := by
  obtain ⟨d, hd, ha, hn⟩ := scaled_units hi unit a n
  rw [← Nat.cast_le (α := ℚ), ha, hn, mul_le_mul_iff_left₀ hd]

theorem eq_scaled_iff : n * (i.denominator * Nat.pow 10 unit.toNat) = a * Nat.pow 10 (-unit).toNat ↔
    (n * 10 ^ unit : ℚ) = a / i.denominator := by
  rw [le_antisymm_iff, le_antisymm_iff, le_scaled_iff hi, scaled_le_iff hi]

end Units

/-- What lies in the interval is rounded to the double. -/
theorem roundsTo (hm : 0 < m) {n : ℕ} {unit : ℤ}
    (hlow : below (of ⟨s, m, e⟩).closed ((of ⟨s, m, e⟩).low * Nat.pow 10 (-unit).toNat)
      (n * ((of ⟨s, m, e⟩).denominator * Nat.pow 10 unit.toNat)) = true)
    (hhigh : below (of ⟨s, m, e⟩).closed
      (n * ((of ⟨s, m, e⟩).denominator * Nat.pow 10 unit.toNat))
      ((of ⟨s, m, e⟩).high * Nat.pow 10 (-unit).toNat) = true) :
    RoundsTo (n * 10 ^ unit) m e := by
  have hi := denominator_pos ⟨s, m, e⟩
  obtain ⟨hlow, hneLow⟩ := le_of_below hlow
  obtain ⟨hhigh, hneHigh⟩ := le_of_below hhigh
  rw [scaled_le_iff hi, low_eq hm] at hlow
  rw [le_scaled_iff hi, high_eq] at hhigh
  rw [ne_comm, ne_eq, eq_scaled_iff hi, low_eq hm] at hneLow
  rw [ne_eq, eq_scaled_iff hi, high_eq] at hneHigh
  refine ⟨hlow, hhigh, fun hodd => ?_⟩
  have hclosed : (of ⟨s, m, e⟩).closed = false := by
    show (m % 2 == 0) = false
    rw [hodd]
    rfl
  exact ⟨fun h => hneLow hclosed h.symm, hneHigh hclosed⟩

/-- The double is inside of its interval. -/
theorem inside (hm : 0 < m) : (of ⟨s, m, e⟩).low < (of ⟨s, m, e⟩).value ∧
    (of ⟨s, m, e⟩).value < (of ⟨s, m, e⟩).high := by
  have hup : 0 < 1 <<< (e - 2).toNat := by
    rw [Nat.one_shiftLeft]
    exact Nat.two_pow_pos _
  have hreach : 0 < reach m e := by
    unfold reach
    split <;> decide
  constructor
  · show (4 * m - reach m e) * _ < 4 * m * _
    exact Nat.mul_lt_mul_of_pos_right (by omega) hup
  · show 4 * m * _ < (4 * m + 2) * _
    exact Nat.mul_lt_mul_of_pos_right (by omega) hup

/-- **A decimal that is taken is rounded to the double.** -/
theorem decimal?_roundsTo (hm : 0 < m) {first : ℤ} {count : ℕ} {d : Decimal}
    (h : (of ⟨s, m, e⟩).decimal? first count = some d) :
    ∃ (n : ℕ) (unit : ℤ), d = ofUnits n unit ∧ RoundsTo (n * 10 ^ unit) m e := by
  obtain ⟨hlow, hhigh⟩ := inside (s := s) (e := e) hm
  have htens : 0 < Nat.pow 10 (-(first + 1 - count)).toNat := Nat.pow_pos (by decide)
  unfold decimal? at h
  simp only at h
  split at h
  · -- The multiple below the double, which is below the upper end all the more.
    next hdown =>
      cases h
      refine ⟨_, _, rfl, roundsTo hm (Bool.and_eq_true_iff.mp hdown).1 (below_of_lt ?_)⟩
      exact (Nat.div_mul_le_self _ _).trans_lt (Nat.mul_lt_mul_of_pos_right hhigh htens)
  · split at h
    · next hup =>
      cases h
      refine ⟨_, _, rfl, roundsTo hm (below_of_lt ?_) hup⟩
      refine (Nat.mul_lt_mul_of_pos_right hlow htens).trans (Nat.lt_mul_of_div_lt ?_ ?_)
      · exact Nat.lt_succ_self _
      · exact Nat.mul_pos (denominator_pos _) (Nat.pow_pos (by decide))
    · cases h

/-- The interval is wider than a unit of the seventeenth digit. -/
theorem unit_lt_width (hfinal : Final m e) (hm : 0 < m) {first : ℤ}
    (hfirst : (10 : ℚ) ^ first ≤ (of ⟨s, m, e⟩).value / (of ⟨s, m, e⟩).denominator) :
    (10 : ℚ) ^ (first + 1 - (17 : ℕ)) < (of ⟨s, m, e⟩).high / (of ⟨s, m, e⟩).denominator -
      (of ⟨s, m, e⟩).low / (of ⟨s, m, e⟩).denominator := by
  have hquarter : (0 : ℚ) < 2 ^ (e - 2) := by positivity
  have hunit : (10 : ℚ) ^ (first + 1 - (17 : ℕ)) = 10 ^ first / 10 ^ 16 := by
    rw [← zpow_natCast, ← zpow_sub₀ (by norm_num)]
    congr 1
    omega
  rw [hunit, high_eq, low_eq hm, ← sub_mul, div_lt_iff₀ (by positivity)]
  refine hfirst.trans_lt ?_
  rw [value_eq, mul_right_comm _ _ ((10 : ℚ) ^ 16)]
  refine mul_lt_mul_of_pos_right ?_ hquarter
  -- A double has less than sixteen digits and a half, a power of two has even less.
  have hdigits : (m : ℚ) < 2 ^ 53 := by exact_mod_cast hfinal.lt
  unfold reach
  split
  · next hpower =>
    rw [hpower.1]
    norm_num
  · push_cast
    linarith

/-- **Seventeen digits suffice.** -/
theorem exists_decimal (hfinal : Final m e) (hm : 0 < m) {first : ℤ}
    (hfirst : (10 : ℚ) ^ first ≤ (of ⟨s, m, e⟩).value / (of ⟨s, m, e⟩).denominator) :
    ∃ d, (of ⟨s, m, e⟩).decimal? first 17 = some d := by
  have hi := denominator_pos ⟨s, m, e⟩
  have hwidth := unit_lt_width hfinal hm hfirst
  unfold decimal?
  simp only
  split
  · exact ⟨_, rfl⟩
  · next hdown =>
    split
    · exact ⟨_, rfl⟩
    · next hup =>
      -- Neither multiple lies in the interval, so the unit is at least as wide as the interval.
      rw [Bool.eq_false_iff.mpr hup, Bool.not_false, Bool.true_or, Bool.and_true] at hdown
      have hlow := (le_scaled_iff hi _ _ _).mp (le_of_not_below hdown)
      have hhigh := (scaled_le_iff hi _ _ _).mp (le_of_not_below hup)
      push_cast at hlow hhigh
      linarith

end Interval

end Interval

/-! ## The shortest decimal -/

/-- **The shortest decimal lies around the double.** -/
theorem exists_shortest {m : ℕ} {e : ℤ} (s : Bool) (hfinal : Final m e) (hm : 0 < m) :
    ∃ (n : ℕ) (unit : ℤ), shortest ⟨s, m, e⟩ = ofUnits n unit ∧
      RoundsTo (n * 10 ^ unit) m e := by
  have hvalue : 0 < (Interval.of ⟨s, m, e⟩).value :=
    Nat.zero_lt_of_lt (Interval.inside hm).1
  have hfirst := ten_pow_place_le hvalue (Interval.denominator_pos ⟨s, m, e⟩)
  obtain ⟨last, hlast⟩ := Interval.exists_decimal hfinal hm hfirst
  have hsome : (List.range 17).findSome? (fun n => (Interval.of ⟨s, m, e⟩).decimal?
      (place (Interval.of ⟨s, m, e⟩).value (Interval.of ⟨s, m, e⟩).denominator) (n + 1)) ≠
        none := by
    intro hnone
    rw [List.findSome?_eq_none_iff] at hnone
    cases (hnone 16 (by decide)).symm.trans hlast
  obtain ⟨d, hd⟩ := Option.ne_none_iff_exists'.mp hsome
  obtain ⟨count, -, hcount⟩ := List.exists_of_findSome?_eq_some hd
  obtain ⟨n, unit, rfl, hround⟩ := Interval.decimal?_roundsTo hm hcount
  exact ⟨n, unit, by rw [shortest, hd]; rfl, hround⟩

end CircuitExpr.Decimal
