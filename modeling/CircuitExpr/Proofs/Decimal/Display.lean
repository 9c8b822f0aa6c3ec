import Mathlib
import CircuitExpr.Proofs.Decimal.Shortest
import CircuitExpr.Proofs.Grammar.Words
import CircuitExpr.Proofs.Numeric.Signs

/-!
# Displayed numbers are read back

The positional form of a decimal is read as the digits in it, wherever the point stands, times a
power of ten that makes up for the digits behind the point and for zeros that were put in or left
out. So it is read as the number that the decimal stands for, which is rounded to the double whose
shortest decimal it is.

## Main statements

* `readDigits?_positional` — the positional form is read as its decimal
* `read?_display` — finite numbers without sign are read back
* `display_of_signBit` — numbers with a sign are displayed with a minus sign in front
-/

namespace CircuitExpr.Decimal

open Float.Model (UnpackedFloat)
open Binary64

/-! ## The value of a row of digits -/

theorem natural_append (a b : List Char) :
    natural (a ++ b) = 10 ^ b.length * natural a + natural b := by
  show Nat.ofDigitChars 10 (a ++ b) 0 = _
  rw [Nat.ofDigitChars_append, Nat.ofDigitChars_eq_ofDigitChars_zero]
  rfl

theorem natural_zeros (n : ℕ) : natural (zeros n) = 0 :=
  Nat.ofDigitChars_replicate_zero.trans (Nat.mul_zero _)

/-- Zeros at the end count the place of the last digit. -/
theorem exists_trimZeros (digits : List Char) :
    ∃ k, digits = trimZeros digits ++ zeros k := by
  refine ⟨(digits.reverse.takeWhile (· == '0')).length, ?_⟩
  have hzeros : digits.reverse.takeWhile (· == '0') =
      zeros (digits.reverse.takeWhile (· == '0')).length := by
    refine List.eq_replicate_of_mem fun c hc => ?_
    exact beq_iff_eq.mp (List.mem_takeWhile_imp (p := (· == '0')) hc)
  rw [trimZeros, zeros, ← List.reverse_replicate, ← zeros, ← hzeros, ← List.reverse_append,
    List.takeWhile_append_dropWhile, List.reverse_reverse]

/-- The digits of a number of units, with the power of ten of the last one. -/
theorem natural_ofUnits (n : ℕ) (unit : ℤ) :
    (natural (ofUnits n unit).digits * 10 ^ ((ofUnits n unit).point -
      (ofUnits n unit).digits.length) : ℚ) = n * 10 ^ unit := by
  obtain ⟨k, hk⟩ := exists_trimZeros (Nat.toDigits 10 n)
  have hlength : length n = (trimZeros (Nat.toDigits 10 n)).length + k := by
    rw [length]
    conv_lhs => rw [hk]
    rw [List.length_append, zeros, List.length_replicate]
  have hvalue : n = 10 ^ k * natural (trimZeros (Nat.toDigits 10 n)) := by
    conv_lhs => rw [← Lifted.natural_toDigits n, hk, natural_append, natural_zeros, zeros,
      List.length_replicate, Nat.add_zero]
  show (natural (trimZeros (Nat.toDigits 10 n)) *
    10 ^ ((length n : ℤ) + unit - (trimZeros (Nat.toDigits 10 n)).length) : ℚ) = _
  have hexponent : (length n : ℤ) + unit - (trimZeros (Nat.toDigits 10 n)).length = k + unit := by
    rw [hlength]
    push_cast
    ring
  rw [hexponent, zpow_add₀ (by norm_num), zpow_natCast]
  conv_rhs => rw [hvalue]
  push_cast
  ring

/-! ## Reading digits -/

theorem spanDigits_append {ds t : List Char} (hds : ∀ c ∈ ds, c.isDigit = true)
    (ht : ∀ c ∈ t.head?, c.isDigit = false) : spanDigits (ds ++ t) = (ds, t) := by
  rw [spanDigits, List.span_eq_takeWhile_dropWhile, takeWhile_append_of_head ht,
    dropWhile_append_of_head ht, List.takeWhile_eq_self_iff.mpr hds,
    List.dropWhile_eq_nil_iff.mpr hds, List.nil_append]

theorem readDigits?_digits {ds : List Char} (hds : ∀ c ∈ ds, c.isDigit = true) (hne : ds ≠ []) :
    readDigits? ds = some (nearest (natural ds) 0) := by
  have hspan : spanDigits ds = (ds, []) := by
    simpa using spanDigits_append (t := []) hds (fun c hc => by cases hc)
  have hsome : (ds.isEmpty && ([] : List Char).isEmpty) = false := by
    rw [List.isEmpty_eq_false_iff.mpr hne, Bool.false_and]
  simp only [readDigits?, hspan, hsome, List.append_nil]
  rfl

theorem readDigits?_point {ds fs : List Char} (hds : ∀ c ∈ ds, c.isDigit = true) (hne : ds ≠ [])
    (hfs : ∀ c ∈ fs, c.isDigit = true) :
    readDigits? (ds ++ '.' :: fs) = some (nearest (natural (ds ++ fs)) (-fs.length)) := by
  have hspan : spanDigits (ds ++ '.' :: fs) = (ds, '.' :: fs) :=
    spanDigits_append hds fun c hc => by cases hc; rfl
  have hfraction : spanDigits fs = (fs, []) := by
    simpa using spanDigits_append (t := []) hfs (fun c hc => by cases hc)
  have hsome : (ds.isEmpty && fs.isEmpty) = false := by
    rw [List.isEmpty_eq_false_iff.mpr hne, Bool.false_and]
  simp only [readDigits?, hspan, hfraction, hsome]
  show some (nearest _ (0 - (fs.length : ℤ))) = _
  rw [zero_sub]

theorem length_zeros (n : ℕ) : (zeros n).length = n := List.length_replicate

/-- **The positional form is read as its decimal.** -/
theorem readDigits?_positional {d : Decimal} (hd : ∀ c ∈ d.digits, c.isDigit = true) :
    ∃ (N : ℕ) (E : ℤ), readDigits? (positional d) = some (nearest N E) ∧
      (N * 10 ^ E : ℚ) = natural d.digits * 10 ^ (d.point - d.digits.length) := by
  have hzero : ∀ c ∈ ['0'], c.isDigit = true := List.forall_mem_singleton.mpr rfl
  unfold positional
  split
  · next hpoint =>
    -- All digits stand behind the point, with zeros in front of them.
    have hfraction : ∀ c ∈ zeros (-d.point).toNat ++ d.digits, c.isDigit = true :=
      List.forall_mem_append.mpr ⟨isDigit_of_mem_zeros, hd⟩
    have hread := readDigits?_point hzero (List.cons_ne_nil _ _) hfraction
    refine ⟨_, _, hread, ?_⟩
    have hvalue : natural (['0'] ++ (zeros (-d.point).toNat ++ d.digits)) = natural d.digits := by
      rw [natural_append, natural_append, natural_zeros]
      show _ * 0 + _ = _
      omega
    rw [hvalue, List.length_append, length_zeros]
    congr 2
    omega
  · next hpoint =>
    simp only
    split
    · next hlength =>
      -- A whole number, whose last zeros were left out.
      have hwhole : ∀ c ∈ d.digits ++ zeros (d.point.toNat - d.digits.length), c.isDigit = true :=
        List.forall_mem_append.mpr ⟨hd, isDigit_of_mem_zeros⟩
      have hne : d.digits ++ zeros (d.point.toNat - d.digits.length) ≠ [] := by
        rw [← List.length_pos_iff, List.length_append, length_zeros]
        omega
      refine ⟨_, _, readDigits?_digits hwhole hne, ?_⟩
      have hexponent : d.point - d.digits.length = (d.point.toNat - d.digits.length : ℕ) := by
        omega
      rw [natural_append, natural_zeros, length_zeros, Nat.add_zero, hexponent, zpow_natCast,
        zpow_zero]
      push_cast
      ring
    · next hlength =>
      -- The point stands between the digits.
      have hne : d.digits.take d.point.toNat ≠ [] := by
        rw [← List.length_pos_iff, List.length_take]
        omega
      refine ⟨_, _, readDigits?_point (fun c hc => hd c (List.mem_of_mem_take hc)) hne
        (fun c hc => hd c (List.mem_of_mem_drop hc)), ?_⟩
      rw [List.take_append_drop, List.length_drop]
      congr 2
      omega

/-- What begins with a digit has no sign and is no word. -/
theorem read?_of_isPositional {cs : List Char} (h : IsPositional cs) :
    read? cs = readDigits? cs := by
  obtain ⟨c, rest, rfl, hc⟩ := h.head
  have hsign : readSign (c :: rest) = (false, c :: rest) := by
    unfold readSign
    split
    · next heq => cases (List.cons.inj heq).1; cases hc
    · next heq => cases (List.cons.inj heq).1; cases hc
    · rfl
  have hlower : c.toLower.isDigit = true := by
    have hall : ∀ n < 58, 48 ≤ n → (Char.ofNat n).toLower.isDigit = true := by decide +kernel
    have hcode := Char.isDigit_iff_toNat.mp hc
    have hdigit := hall c.toNat (Nat.lt_succ_of_le hcode.2) hcode.1
    rwa [Char.ofNat_toNat] at hdigit
  have hword : ∀ word : String, word.toList.head?.map Char.isDigit = some false →
      (String.ofList ((c :: rest).map Char.toLower) == word) = false := by
    intro word hword
    refine beq_eq_false_iff_ne.mpr ?_
    rintro rfl
    rw [String.toList_ofList, List.map_cons, List.head?_cons, Option.map_some, hlower] at hword
    cases hword
  have hinf := hword "inf" (by decide)
  have hinfinity := hword "infinity" (by decide)
  have hnan := hword "nan" (by decide)
  simp only [read?, hsign, readUnsigned?, hinf, hinfinity, hnan]
  cases readDigits? (c :: rest) <;> rfl

/-! ## Displayed numbers -/

section Display

variable {x : Float} {s : UnpackedFloat.Sign} {m : ℕ} {e : ℤ} {hm : 0 < m}

theorem display_of_finite (hx : unpacked x = .finite s m e hm) :
    (display x).toList = sign (isMinus s) ++ positional (shortest ⟨false, m, e⟩) := by
  have hnan : x.isNaN = false := congrArg UnpackedFloat.isNaN hx
  have hinf : x.isInf = false := congrArg UnpackedFloat.isInf hx
  unfold display
  simp only [hnan, hinf, ofFloat_of_finite hx, Bool.false_eq_true, if_false, if_neg hm.ne',
    String.toList_ofList]
  rfl

theorem display_of_zero (hx : unpacked x = .zero s) :
    (display x).toList = sign (isMinus s) ++ ['0'] := by
  have hnan : x.isNaN = false := congrArg UnpackedFloat.isNaN hx
  have hinf : x.isInf = false := congrArg UnpackedFloat.isInf hx
  unfold display
  simp only [hnan, hinf, ofFloat_of_zero hx, Bool.false_eq_true, if_false, if_true,
    String.toList_ofList]

/-- The digits of a number are read as the number, without its sign. -/
theorem readDigits?_size (hx : unpacked x = .finite .positive m e hm) :
    readDigits? (positional (shortest ⟨false, m, e⟩)) = some x := by
  obtain ⟨n, unit, hshortest, hround⟩ := exists_shortest false (final_of_unpacked hx) hm
  obtain ⟨N, E, hread, hvalue⟩ := readDigits?_positional (isDigit_of_mem_shortest ⟨false, m, e⟩)
  rw [hread]
  rw [hshortest, natural_ofUnits] at hvalue
  rw [← hvalue] at hround
  exact congrArg some (nearest_eq hx hround)

/-- **Finite numbers without sign are read back.** -/
theorem read?_display (hfinite : x.isFinite = true) (hsign : signBit x = false) :
    read? (display x).toList = some x := by
  rw [read?_of_isPositional (display_spec hfinite hsign)]
  obtain ⟨s, hs, hx⟩ := exists_unpacked hfinite
  obtain rfl : s = .positive := by
    rw [hsign] at hs
    cases s with
    | positive => rfl
    | negative => cases hs
  rcases hx with hx | ⟨m, e, hm, hx⟩
  · have hzero : x = 0 := (packed_unpacked x).symm.trans (congrArg packed hx)
    rw [display_of_zero hx, hzero]
    exact readDigits?_digits (List.forall_mem_singleton.mpr rfl) (List.cons_ne_nil '0' [])
  · rw [display_of_finite hx]
    exact readDigits?_size hx

/-- **A number with a sign is displayed as its negative with a minus sign in front.** -/
theorem display_of_signBit (hfinite : x.isFinite = true) (hsign : signBit x = true) :
    (display x).toList = '-' :: (display (-x)).toList ∧ signBit (-x) = false := by
  obtain ⟨s, hs, hx⟩ := exists_unpacked hfinite
  obtain rfl : s = .negative := by
    rw [hsign] at hs
    cases s with
    | positive => cases hs
    | negative => rfl
  rcases hx with hx | ⟨m, e, hm, hx⟩
  · have hneg : unpacked (-x) = .zero .positive := by
      rw [unpacked_neg, hx]
      rfl
    rw [display_of_zero hx, display_of_zero hneg, ← negative_ofFloat, ofFloat_of_zero hneg]
    exact ⟨rfl, rfl⟩
  · have hneg : unpacked (-x) = .finite .positive m e hm := by
      rw [unpacked_neg, hx]
      rfl
    rw [display_of_finite hx, display_of_finite hneg, ← negative_ofFloat, ofFloat_of_finite hneg]
    exact ⟨rfl, rfl⟩

end Display

end CircuitExpr.Decimal
