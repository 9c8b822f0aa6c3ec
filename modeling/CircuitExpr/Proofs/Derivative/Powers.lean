import Mathlib
import CircuitExpr.Proofs.Derivative.Flat
import CircuitExpr.Proofs.Function.Library
import CircuitExpr.Proofs.Numeric.Slopes

/-!
# Two spellings of a power

A power with a constant exponent can be written with the operator and as a call of `pow`, and both
have the same value. Their slopes are the exponent times the power with one exponent less, times
the sign of the base. The operator has shorter forms for the exponents zero, one and two, and for
exponents below one its slope is zero at a base that counts as zero. The call has neither; it is
not looked at when the variable does not occur.

The slopes have the same value, up to the signs of zeros, apart from three kinds of points:

* an exponent below one at a base that counts as zero, where the slope of the call is infinite or
  undefined, or large;
* a square at a base on the imaginary axis, where the slope of the call has lost the sign;
* a variable that does not occur, where the slope of the operator multiplies a zero by a number
  that is not finite.

## Main statements

* `derive_operator_eq`, `derive_call_pow_eq` — the two slopes as expressions
* `occurs_iff`, `absent_iff` — where their values are the same
* `spellings_agree_iff` — both, over the two domains
-/

namespace CircuitExpr

open Binary64 Scalar LibraryFunction

namespace Expr

/-! ## The slopes as expressions -/

section Trees

variable {t : FunctionTable Float} {c : NameComparison} {v : Variable} {a da : Expr Float}
  {exponent : Float}

/-- The factor by which a call multiplies the slope of its base. -/
def callFactor (a : Expr Float) (exponent : Float) : Expr Float :=
  product (product (.const exponent) (.binary .pow a (.const (exponent - 1)))) (of .sgn [a])

/-- The slope of a call whose base depends on the variable. -/
def callSlope (a : Expr Float) (exponent : Float) (da : Expr Float) : Expr Float :=
  if da.isValue 0 then zero else sum zero (product (callFactor a exponent) da)

theorem derive_operator_eq (h : derive t c v a = .ok da) :
    derive t c v (.binary .pow a (.const exponent)) = .ok (constantPowerSlope a exponent da) := by
  have hconst : derive t c v (.const exponent) = .ok zero := derive_const t c v exponent
  rw [derive_binary_eq rfl h hconst]
  rfl

/-- The slope of the exponent is zero, so that its term is left out. -/
theorem derive_call_pow_eq (hoccurs : a.dependsOn c v = true)
    (h : derive .library c v a = .ok da) :
    derive .library c v (of .pow [a, .const exponent]) = .ok (callSlope a exponent da) := by
  have hconst : derive .library c v (.const exponent) = .ok zero := derive_const _ c v exponent
  have hany : anyDependsOn c v [a, .const exponent] = true := by
    rw [anyDependsOn, hoccurs, Bool.true_or]
  have hslopes : deriveEach .library c v [a, .const exponent] = .ok [da, zero] := by
    rw [deriveEach_cons, h, deriveEach_cons, hconst]
    rfl
  rw [of, derive_call_eq hany (FunctionTable.library_resolve_name (f := .pow) rfl) rfl rfl hslopes]
  have hskip : (zero : Expr Float).isValue 0 = true := rfl
  simp only [rule, powerSlopes, chain, List.zip_cons_cons, List.zip_nil_left, List.foldl_cons,
    List.foldl_nil, hskip, if_true]
  rfl

theorem derive_call_pow_of_absent (habsent : a.dependsOn c v = false) :
    derive t c v (of .pow [a, .const exponent]) = .ok zero := by
  refine derive_call_of_absent ?_
  rw [anyDependsOn, habsent, anyDependsOn]
  rfl

end Trees

/-! ## Products that cannot be folded -/

section Values

variable {D σ : Type} [Scalar D Float] {V : D → D → Prop} {Finite Doubles Turned : D → Prop}
  {env : Environment Float D σ} {setting : Setting D} {host : σ} {a da f : Expr Float}
  {x d y y' : D} {exponent : Float}

/-- The value of a product of an expression that is no constant with a slope. -/
def scaled (da : Expr Float) (y d : D) : D :=
  if da.isValue 0 then ofReal (0 : Float) else if da.isValue 1 then y else y * d

theorem yields_product (hopen : f.constant? = none) (hf : Yields env setting host f y)
    (hd : Yields env setting host da d) :
    Yields env setting host (product f da) (scaled da y d) := by
  unfold scaled isValue product
  rw [hopen]
  cases da.constant? with
  | none => exact hf.binary hd rfl
  | some u =>
    by_cases hzero : (u == 0) = true
    · simp only [hzero, if_true]
      exact yields_const 0
    · by_cases hone : (u == 1) = true
      · simp only [hzero, hone, if_true]
        exact hf
      · simp only [hzero, hone]
        exact hf.binary hd rfl

/-- A product of an expression that is no constant is zero or no constant. -/
theorem sum_zero_product (hopen : f.constant? = none) (hda : ¬ da.isValue 0 = true) :
    sum zero (product f da) = product f da := by
  have hproduct : (product f da).constant? = none := by
    unfold isValue at hda
    unfold product
    rw [hopen]
    cases hu : da.constant? with
    | none => rfl
    | some u =>
      rw [hu] at hda
      simp only [if_neg hda]
      split
      · exact hopen
      · rfl
  unfold sum
  rw [hproduct]
  rfl

variable (hS : Slopes V Finite Doubles Turned)
include hS

theorem scaled_similar (h : V y y') : V (scaled da y d) (scaled da y' d) := by
  unfold scaled
  split
  · exact hS.similarity.refl _
  · split
    · exact h
    · exact hS.similarity.mul h (hS.similarity.refl d)

theorem scaled_zero (h : V y (ofReal 0)) (hd : Finite d) : V (scaled da y d) (ofReal 0) := by
  unfold scaled
  split
  · exact hS.similarity.refl _
  · split
    · exact h
    · exact hS.similarity.trans (hS.similarity.mul h (hS.similarity.refl d)) (hS.zero_mul hd)

/-- A slope that is zero without being the constant zero stays zero if the factor is finite. -/
theorem scaled_zero_iff (hyields : Yields env setting host da d) (hd : V d (ofReal 0))
    (hda : ¬ da.isValue 0 = true) : V (scaled da y d) (ofReal 0) ↔ Finite y := by
  have hone : ¬ da.isValue 1 = true := by
    intro h
    obtain ⟨u, rfl, hu⟩ := isValue_eq_true.mp h
    rw [eq_one_of_beq hu] at hyields
    rw [← hyields.ofReal_eq, hS.ofReal_zero_iff] at hd
    exact absurd hd (by decide)
  have hproduct := hS.similarity.mul (hS.similarity.refl y) hd
  rw [scaled, if_neg hda, if_neg hone, ← hS.mul_zero_iff]
  exact ⟨hS.similarity.trans (hS.similarity.symm hproduct), hS.similarity.trans hproduct⟩

end Values

/-! ## Values of the slopes -/

section Values

variable {D σ : Type} [Scalar D Float] {V : D → D → Prop} {Finite Doubles Turned : D → Prop}
  {env : Environment Float D σ} {setting : Setting D} {host : σ} {a da : Expr Float} {x d : D}
  {exponent : Float}

/-- Whether the base counts as zero where the slope would be infinite. -/
def isGuarded (tolerances : Tolerances Float) (x : D) (exponent : Float) : Bool :=
  exponent < 1 && Scalar.fuzzyEquals x (ofReal (0 : Float)) tolerances

theorem isGuarded_of_not_lt (h : ¬ exponent < 1) (tolerances : Tolerances Float) (x : D) :
    isGuarded tolerances x exponent = false := by
  rw [isGuarded, decide_eq_false h, Bool.false_and]

/-- The value of the factor by which the operator multiplies the slope of its base. -/
def operatorFactor (x : D) (exponent : Float) : D :=
  if exponent == 1 then elementary .sgn x
  else if exponent == 2.0 then ofReal (2.0 : Float) * x
  else powerFactor x exponent

/-- The value of the factor by which a call does. A constant factor one is folded away. -/
def callValue (x : D) (exponent : Float) : D :=
  if exponent == 1 then power x (ofReal (exponent - 1)) * elementary .sgn x
  else powerFactor x exponent

/-- The value of the slope of the operator, at a base that is no constant. -/
def operatorValue (tolerances : Tolerances Float) (da : Expr Float) (x d : D) (exponent : Float) :
    D :=
  if exponent == 0 || isGuarded tolerances x exponent then ofReal (0 : Float)
  else scaled da (operatorFactor x exponent) d

theorem yields_callFactor (henv : env.Standard) (ha : Yields env setting host a x)
    (h0 : (exponent == 0) = false) :
    (callFactor a exponent).constant? = none ∧
      Yields env setting host (callFactor a exponent) (callValue x exponent) := by
  have hpower : Yields env setting host (.binary .pow a (.const (exponent - 1)))
      (power x (ofReal (exponent - 1))) := ha.binary (yields_const _) rfl
  have hsign : Yields env setting host (of .sgn [a]) (elementary .sgn x) :=
    henv.yields_of rfl (.cons ha .nil)
  by_cases h1 : (exponent == 1) = true
  · have hfactor : callFactor a exponent =
        .binary .mul (.binary .pow a (.const (exponent - 1))) (of .sgn [a]) := by
      have hopen : (Expr.binary .pow a (.const (exponent - 1))).constant? = none := rfl
      have hfirst : product (.const exponent) (.binary .pow a (.const (exponent - 1))) =
          .binary .pow a (.const (exponent - 1)) := by
        simp [product, hopen, h0, h1]
      rw [callFactor, hfirst]
      rfl
    rw [hfactor, callValue, if_pos h1]
    exact ⟨rfl, hpower.binary hsign rfl⟩
  · rw [callFactor, product_const_power h0 (Bool.eq_false_iff.mpr h1), callValue, if_neg h1]
    exact ⟨rfl, ((yields_const exponent).binary hpower rfl).binary hsign rfl⟩

theorem yields_callSlope (henv : env.Standard) (ha : Yields env setting host a x)
    (hd : Yields env setting host da d) (h0 : (exponent == 0) = false) :
    Yields env setting host (callSlope a exponent da) (scaled da (callValue x exponent) d) := by
  unfold callSlope
  by_cases hda : da.isValue 0 = true
  · rw [if_pos hda, scaled, if_pos hda]
    exact yields_const 0
  · obtain ⟨hfactor, hvalue⟩ := yields_callFactor henv ha h0
    rw [if_neg hda, sum_zero_product hfactor hda]
    exact yields_product hfactor hvalue hd

variable (hS : Slopes V Finite Doubles Turned)
include hS

/-- The guard chooses zero at a base that counts as zero. -/
theorem yields_guard {term : Expr Float} {y : D} (ha : Yields env setting host a x)
    (hterm : Yields env setting host term y) :
    Yields env setting host (.cond (.binary .eq a zero) zero term)
      (if Scalar.fuzzyEquals x (ofReal (0 : Float)) env.tolerances = true then ofReal (0 : Float)
        else y) := by
  have hcondition : Yields env setting host (.binary .eq a zero)
      (Scalar.ofBool (Scalar.fuzzyEquals x (ofReal (0 : Float)) env.tolerances)) :=
    ha.binary (yields_const 0) rfl
  refine hcondition.cond ?_
  rw [hS.isTrue_ofBool]
  split
  · exact yields_const 0
  · exact hterm

theorem yields_operatorSlope (henv : env.Standard) (ha : Yields env setting host a x)
    (hd : Yields env setting host da d)
    (hopen : (exponent == 2.0) = true → a.constant? = none) :
    Yields env setting host (constantPowerSlope a exponent da)
      (operatorValue env.tolerances da x d exponent) := by
  have hsign : Yields env setting host (of .sgn [a]) (elementary .sgn x) :=
    henv.yields_of rfl (.cons ha .nil)
  unfold constantPowerSlope operatorValue operatorFactor
  by_cases h0 : (exponent == 0) = true
  · rw [if_pos h0, h0, Bool.true_or, if_pos rfl]
    exact yields_const 0
  rw [if_neg h0, Bool.eq_false_iff.mpr h0, Bool.false_or]
  by_cases h1 : (exponent == 1) = true
  · have hnot : ¬ exponent < 1 := by
      rw [eq_one_of_beq h1]
      decide
    rw [if_pos h1, if_pos h1, isGuarded_of_not_lt hnot, if_neg Bool.false_ne_true]
    exact yields_product rfl hsign hd
  rw [if_neg h1, if_neg h1]
  by_cases h2 : (exponent == 2.0) = true
  · have hnot : ¬ exponent < 1 := by
      rw [eq_of_beq_of_ne h2 rfl]
      decide
    rw [if_pos h2, if_pos h2, isGuarded_of_not_lt hnot, if_neg Bool.false_ne_true,
      product_two (hopen h2)]
    exact yields_product rfl ((yields_const 2.0).binary ha rfl) hd
  rw [if_neg h2, if_neg h2]
  -- for all other exponents the term is that of the call, behind a guard or not
  obtain ⟨hfactor, hvalue⟩ := yields_callFactor henv ha (Bool.eq_false_iff.mpr h0)
  rw [callValue, if_neg h1] at hvalue
  have hterm := yields_product hfactor hvalue hd
  dsimp only
  by_cases hbelow : exponent < 1
  · rw [if_pos hbelow, isGuarded, decide_eq_true hbelow, Bool.true_and]
    exact yields_guard hS ha hterm
  · rw [if_neg hbelow, isGuarded_of_not_lt hbelow, if_neg Bool.false_ne_true]
    exact hterm

/-- The factor of the call is zero for the exponent zero, and folded with a constant slope. -/
theorem exists_yields_callSlope_zero (hd : Yields env setting host da d) (hfinite : Finite d)
    (h0 : (exponent == 0) = true) :
    ∃ z, Yields env setting host (callSlope a exponent da) z ∧ V z (ofReal 0) := by
  unfold callSlope
  by_cases hda : da.isValue 0 = true
  · rw [if_pos hda]
    exact ⟨_, yields_const 0, hS.similarity.refl _⟩
  have hfactor : callFactor a exponent = zero := by
    rw [callFactor, product_zero_left_of_open h0 rfl]
    rfl
  rw [if_neg hda, hfactor]
  cases hconst : da.constant? with
  | none =>
    rw [zero, product_zero_left_of_open rfl hconst]
    exact ⟨_, yields_const (0 + 0), hS.ofReal_zero_iff.mpr rfl⟩
  | some u =>
    obtain rfl := constant?_eq_some.mp hconst
    have hu : u.isFinite = true := by
      rw [← hS.finite_ofReal_iff, hd.ofReal_eq]
      exact hfinite
    have hsum : (0 + 0 * u == 0) = true := add_zeros_beq rfl (zero_mul_beq hu)
    exact ⟨_, yields_const (0 + 0 * u), hS.ofReal_zero_iff.mpr hsum⟩

/-- The factors differ in signs of zeros only, but for squares of numbers without a sign. -/
theorem callValue_similar (hx : Finite x)
    (hsquare : (exponent == 2.0) = true → Doubles x ∧ ¬ Turned x) :
    V (callValue x exponent) (operatorFactor x exponent) := by
  unfold callValue operatorFactor
  by_cases h1 : (exponent == 1) = true
  · have hpower : power x (ofReal ((1 : Float) - 1)) = ofReal (1 : Float) := hS.power_zero x
    rw [if_pos h1, if_pos h1, eq_one_of_beq h1, hpower]
    exact hS.one_mul_sign x
  · rw [if_neg h1, if_neg h1]
    by_cases h2 : (exponent == 2.0) = true
    · obtain ⟨hdouble, hturned⟩ := hsquare h2
      rw [if_pos h2, eq_of_beq_of_ne h2 rfl]
      exact hS.square hx hdouble hturned
    · rw [if_neg h2]
      exact hS.similarity.refl _

theorem callValue_turned (h2 : (exponent == 2.0) = true) (hdouble : Doubles x)
    (hturned : Turned x) : V (callValue x exponent) (ofReal 0) := by
  have hexponent : exponent = 2.0 := eq_of_beq_of_ne h2 rfl
  subst hexponent
  exact hS.square_turned hdouble hturned

end Values

/-! ## Where the slopes agree -/

section Points

variable {D σ : Type} [Scalar D Float] {V : D → D → Prop} {Finite Doubles Turned : D → Prop}

/-- A base and its slope, with values that are finite. -/
structure FinitePoint (Finite : D → Prop) (env : Environment Float D σ) (setting : Setting D)
    (host : σ) (c : NameComparison) (v : Variable) (a da : Expr Float) (x d : D) : Prop where
  standard : env.Standard
  slope : derive .library c v a = .ok da
  base_yields : Yields env setting host a x
  slope_yields : Yields env setting host da d
  base_finite : Finite x
  slope_finite : Finite d

/-- The slopes of both spellings are found and have values, which are as the relation says. -/
def SlopesYield (env : Environment Float D σ) (setting : Setting D) (host : σ)
    (c : NameComparison) (v : Variable) (a : Expr Float) (exponent : Float)
    (relation : D → D → Prop) : Prop :=
  ∃ p q y z, derive .library c v (.binary .pow a (.const exponent)) = .ok p ∧
    derive .library c v (.call "pow" [a, .const exponent]) = .ok q ∧
    Yields env setting host p y ∧ Yields env setting host q z ∧ relation y z

variable {env : Environment Float D σ} {setting : Setting D} {host : σ} {c : NameComparison}
  {v : Variable} {a da : Expr Float} {x d : D} {exponent : Float}

/-- By a variable that occurs, the slopes agree unless the base is guarded or has no sign. -/
theorem occurs_iff (hS : Slopes V Finite Doubles Turned)
    (h : FinitePoint Finite env setting host c v a da x d) (hoccurs : a.dependsOn c v = true)
    (hdouble : (exponent == 2.0) = true → Doubles x) :
    SlopesYield env setting host c v a exponent fun y z =>
      V y z ↔ (isGuarded env.tolerances x exponent = true → V z (ofReal 0)) ∧
        ((exponent == 2.0) = true → Turned x → V y (ofReal 0)) := by
  have hopen : a.constant? = none := by
    cases a with
    | const u => exact absurd hoccurs (by rw [dependsOn]; decide)
    | _ => rfl
  have heq := hS.similarity.equivalence
  have hoperator : Yields env setting host (constantPowerSlope a exponent da)
      (operatorValue env.tolerances da x d exponent) :=
    yields_operatorSlope hS h.standard h.base_yields h.slope_yields fun _ => hopen
  unfold operatorValue at hoperator
  cases h0 : exponent == 0 with
  | true =>
    obtain ⟨z, hcall, hzero⟩ := exists_yields_callSlope_zero hS h.slope_yields h.slope_finite h0
    rw [h0, Bool.true_or, if_pos rfl] at hoperator
    exact ⟨_, _, _, z, derive_operator_eq h.slope, derive_call_pow_eq hoccurs h.slope, hoperator,
      hcall, iff_of_true (heq.symm hzero) ⟨fun _ => hzero, fun _ _ => heq.refl _⟩⟩
  | false =>
    have hcall := yields_callSlope h.standard h.base_yields h.slope_yields h0
    rw [h0, Bool.false_or] at hoperator
    refine ⟨_, _, _, _, derive_operator_eq h.slope, derive_call_pow_eq hoccurs h.slope, hoperator,
      hcall, ?_⟩
    cases hguard : isGuarded env.tolerances x exponent with
    | true =>
      -- the operator has the slope zero
      rw [if_pos rfl]
      exact ⟨fun h => ⟨fun _ => heq.symm h, fun _ _ => heq.refl _⟩, fun h => heq.symm (h.1 rfl)⟩
    | false =>
      -- both multiply the slope of the base, by factors that agree or by zero in the call
      have hunguarded : false = true → V (scaled da (callValue x exponent) d) (ofReal 0) :=
        fun h => absurd h Bool.false_ne_true
      rw [if_neg Bool.false_ne_true]
      by_cases hturned : (exponent == 2.0) = true ∧ Turned x
      · have hfactor := callValue_turned hS hturned.1 (hdouble hturned.1) hturned.2
        have hzero : V (scaled da (callValue x exponent) d) (ofReal 0) :=
          scaled_zero hS hfactor h.slope_finite
        exact ⟨fun h => ⟨hunguarded, fun _ _ => heq.trans h hzero⟩,
          fun h => heq.trans (h.2 hturned.1 hturned.2) (heq.symm hzero)⟩
      · have hfactor := callValue_similar hS h.base_finite
          fun h2 => ⟨hdouble h2, fun ht => hturned ⟨h2, ht⟩⟩
        exact iff_of_true (heq.symm (scaled_similar hS hfactor))
          ⟨hunguarded, fun h2 ht => absurd ⟨h2, ht⟩ hturned⟩

/-- The square of a constant is folded with the slope zero of that constant. -/
theorem constant_square_iff (hS : Slopes V Finite Doubles Turned) {u : Float}
    (h : FinitePoint Finite env setting host c v (.const u) da x d) :
    SlopesYield env setting host c v (.const u) 2.0 fun y z =>
      V y z ↔ Finite (operatorFactor x 2.0) := by
  obtain rfl : zero = da := by
    have hconst := h.slope
    rw [derive_const] at hconst
    exact Except.ok.inj hconst
  have hx : ofReal u = x := h.base_yields.ofReal_eq
  have hfinite : u.isFinite = true := by
    rw [← hS.finite_ofReal_iff, hx]
    exact h.base_finite
  have hfactor : operatorFactor x 2.0 = ofReal (2.0 : Float) * ofReal u := by
    rw [hx]
    rfl
  refine ⟨_, _, _, _, derive_operator_eq h.slope, derive_call_pow_of_absent rfl,
    yields_const (2.0 * u * 0), yields_const 0, ?_⟩
  beta_reduce
  rw [hS.ofReal_zero_iff, (zeroIf_mul_zero (2.0 * u) (z := 0) rfl).beq_zero_eq, hfactor,
    hS.finite_double_iff hfinite]

/-- By a variable that does not occur, the slopes agree where zero stays zero. -/
theorem absent_iff (hS : Slopes V Finite Doubles Turned) {Z : D → Prop} (hZ : Ideal Z)
    (hzero : ∀ d, Z d → Finite d → V d (ofReal 0))
    (h : FinitePoint Finite env setting host c v a da x d) (habsent : a.dependsOn c v = false) :
    SlopesYield env setting host c v a exponent fun y z =>
      V y z ↔ (exponent == 0) = true ∨ isGuarded env.tolerances x exponent = true ∨
        (da.isValue 0 = true ∧ ((exponent == 2.0) = true → a.constant? = none)) ∨
        Finite (operatorFactor x exponent) := by
  have heq := hS.similarity.equivalence
  have hcall : Yields env setting host zero (ofReal (0 : Float)) := yields_const 0
  by_cases hopen : (exponent == 2.0) = true → a.constant? = none
  · refine ⟨_, _, _, _, derive_operator_eq h.slope, derive_call_pow_of_absent habsent,
      yields_operatorSlope hS h.standard h.base_yields h.slope_yields hopen, hcall, ?_⟩
    have hd : V d (ofReal 0) :=
      hzero d (derive_absent_yieldsIn hZ habsent h.slope _ _ _ h.slope_yields) h.slope_finite
    unfold operatorValue
    cases h0 : exponent == 0 with
    | true => exact iff_of_true (heq.refl _) (.inl rfl)
    | false =>
      rw [Bool.false_or]
      cases hguard : isGuarded env.tolerances x exponent with
      | true => exact iff_of_true (heq.refl _) (.inr (.inl rfl))
      | false =>
        rw [if_neg Bool.false_ne_true]
        by_cases hda : da.isValue 0 = true
        · refine iff_of_true ?_ (.inr (.inr (.inl ⟨hda, hopen⟩)))
          rw [scaled, if_pos hda]
          exact heq.refl _
        · beta_reduce
          rw [scaled_zero_iff hS h.slope_yields hd hda]
          simp [hda]
  · rw [Classical.not_imp, ← ne_eq, Option.ne_none_iff_exists'] at hopen
    obtain ⟨h2, u, hu⟩ := hopen
    obtain rfl := constant?_eq_some.mp hu
    obtain rfl : exponent = 2.0 := eq_of_beq_of_ne h2 rfl
    have hguard : isGuarded env.tolerances x 2.0 = false :=
      isGuarded_of_not_lt (by decide) env.tolerances x
    obtain ⟨p, q, y, z, hp, hq, hy, hz, hiff⟩ := constant_square_iff hS h
    refine ⟨p, q, y, z, hp, hq, hy, hz, hiff.trans ⟨fun h => .inr (.inr (.inr h)), ?_⟩⟩
    rintro (h | h | ⟨-, h⟩ | h)
    · exact absurd h (by decide)
    · exact absurd (hguard.symm.trans h) Bool.false_ne_true
    · exact absurd (hu.symm.trans (h h2)) (Option.some_ne_none u)
    · exact h

/--
At which points of a domain the slopes of the two spellings agree. By a variable that occurs they
do, unless the base is guarded or is squared without a sign: there one of them is zero, and the
other one has to be. By a variable that does not occur the call has the slope zero, and the operator
has it where nothing is multiplied, where the base is guarded, where the slope of the base is folded
away, and where its factor is finite.
-/
def SpellingsAgreeIff (V : D → D → Prop) (Finite Doubles Turned : D → Prop) (c : NameComparison)
    (v : Variable) (a : Expr Float) (exponent : Float) : Prop :=
  ∀ {σ : Type} (env : Environment Float D σ) (setting : Setting D) (host : σ) (da : Expr Float)
    (x d : D), FinitePoint Finite env setting host c v a da x d →
    (a.dependsOn c v = true → (exponent == 2.0) = true → Doubles x) →
    SlopesYield env setting host c v a exponent fun y z =>
      V y z ↔ if a.dependsOn c v = true then
          (isGuarded env.tolerances x exponent = true → V z (ofReal 0)) ∧
            ((exponent == 2.0) = true → Turned x → V y (ofReal 0))
        else
          (exponent == 0) = true ∨ isGuarded env.tolerances x exponent = true ∨
            (da.isValue 0 = true ∧ ((exponent == 2.0) = true → a.constant? = none)) ∨
            Finite (operatorFactor x exponent)

theorem spellingsAgreeIff (hS : Slopes V Finite Doubles Turned) {Z : D → Prop} (hZ : Ideal Z)
    (hzero : ∀ d, Z d → Finite d → V d (ofReal 0)) :
    SpellingsAgreeIff V Finite Doubles Turned c v a exponent := by
  intro σ env setting host da x d h hdouble
  cases hoccurs : a.dependsOn c v with
  | true => simpa using occurs_iff hS h hoccurs (hdouble hoccurs)
  | false => simpa using absent_iff hS hZ hzero h hoccurs

end Points

/--
**The slopes of the two spellings of a power agree**, up to the signs of zeros, at all points where
the base and its slope are finite, apart from three kinds. An exponent below one makes the slope of
the operator zero at a base that counts as zero, and of the call it does not. A square has no slope
as a call at a complex base without a real part. And by a variable that does not occur the slope of
the operator is undefined where its factor is not finite and its zero is not folded away.
-/
theorem spellings_agree_iff (c : NameComparison) (v : Variable) (a : Expr Float)
    (exponent : Float) :
    SpellingsAgreeIff Alike (fun x : Float => x.isFinite = true) (fun _ => True) (fun _ => False)
        c v a exponent ∧
      SpellingsAgreeIff AlikeParts FiniteParts (fun z => FiniteParts (ofReal (2.0 : Float) * z))
        (fun z => (z.re == 0) = true) c v a exponent := by
  constructor
  · exact spellingsAgreeIff alike_slopes degenerate_ideal fun d hd hfinite =>
      alike_zero (hd hfinite)
  · exact spellingsAgreeIff alikeParts_slopes degenerateParts_ideal fun d hd hfinite =>
      ⟨alike_zero (hd.re hfinite.re), alike_zero (hd.im hfinite.im)⟩

/-- The slopes of the cube of `x` at minus two. -/
theorem spellings_agree_cube :
    let bindings := (Bindings.empty .caseSensitive).bind .sample 0
    let env : Environment Float Float Unit := .ofBindings bindings
    SlopesYield env (fun _ => -2) () .caseSensitive .sample (.var .sample) 3 Alike := by
  intro bindings env
  have hpoint : FinitePoint (fun x : Float => x.isFinite = true) env (fun _ => -2) ()
      .caseSensitive .sample (.var .sample) one (-2) 1 :=
    { standard := ⟨rfl, fun _ _ _ => rfl⟩
      slope := by rw [derive_var]; rfl
      base_yields := yields_var rfl
      slope_yields := yields_const 1
      base_finite := rfl
      slope_finite := rfl }
  have hoccurs : (.var .sample : Expr Float).dependsOn .caseSensitive .sample = true := by decide
  have hguard : isGuarded env.tolerances (-2 : Float) 3 = false :=
    isGuarded_of_not_lt (by decide) env.tolerances (-2 : Float)
  obtain ⟨p, q, y, z, hp, hq, hy, hz, hiff⟩ :=
    (spellings_agree_iff .caseSensitive .sample (.var .sample) 3).1 env (fun _ => -2) () one (-2) 1
      hpoint fun _ _ => trivial
  have hunguarded (z : Float) : false = true → Alike z 0 := fun h => absurd h Bool.false_ne_true
  rw [if_pos hoccurs, hguard] at hiff
  exact ⟨p, q, y, z, hp, hq, hy, hz, hiff.mpr ⟨hunguarded z, fun _ => False.elim⟩⟩

/--
Two points where they part. The square of `1e308` has an undefined slope as a power, infinity times
zero, and the slope zero as a call. The square of `x` at the imaginary unit has the slope `2i` as a
power, and zero as a call.
-/
theorem spellings_part_square :
    let bindings := (Bindings.empty .caseSensitive).bind .sample 0
    let env : Environment Float Float Unit := .ofBindings bindings
    let complexEnv : Environment Float (Complex Float) Unit := .ofBindings bindings
    (FinitePoint (fun x : Float => x.isFinite = true) env (fun _ => 0) () .caseSensitive .sample
        (.const 1e308) zero 1e308 0 ∧
      SlopesYield env (fun _ => 0) () .caseSensitive .sample (.const 1e308) 2.0
        fun y z => y.isNaN = true ∧ z = 0) ∧
    (FinitePoint FiniteParts complexEnv (fun _ => ⟨0, 1⟩) () .caseSensitive .sample
        (.var .sample) one ⟨0, 1⟩ ⟨1, 0⟩ ∧
      SlopesYield complexEnv (fun _ => ⟨0, 1⟩) () .caseSensitive .sample (.var .sample) 2.0
        fun y z => y = ⟨0, 2⟩ ∧ z = ⟨0, 0⟩) := by
  intro bindings env complexEnv
  constructor
  · have hpoint : FinitePoint (fun x : Float => x.isFinite = true) env (fun _ => 0) ()
        .caseSensitive .sample (.const 1e308) zero 1e308 0 :=
      { standard := ⟨rfl, fun _ _ _ => rfl⟩
        slope := derive_const _ _ _ _
        base_yields := yields_const 1e308
        slope_yields := yields_const 0
        base_finite := by decide +kernel
        slope_finite := rfl }
    have hoverflow : (2.0 * 1e308 * 0 : Float).isNaN = true := by decide +kernel
    exact ⟨hpoint, _, _, _, _, derive_operator_eq hpoint.slope, derive_call_pow_of_absent rfl,
      yields_const (2.0 * 1e308 * 0), yields_const 0, hoverflow, rfl⟩
  · have hpoint : FinitePoint FiniteParts complexEnv (fun _ => ⟨0, 1⟩) () .caseSensitive .sample
        (.var .sample) one ⟨0, 1⟩ ⟨1, 0⟩ :=
      { standard := ⟨rfl, fun _ _ _ => rfl⟩
        slope := by rw [derive_var]; rfl
        base_yields := yields_var rfl
        slope_yields := yields_const 1
        base_finite := ⟨rfl, rfl⟩
        slope_finite := ⟨rfl, rfl⟩ }
    have hcall : Yields complexEnv (fun _ => ⟨0, 1⟩) () (callSlope (.var .sample) 2.0 one)
        (scaled one (callValue ⟨0, 1⟩ 2.0) ⟨1, 0⟩) :=
      yields_callSlope hpoint.standard hpoint.base_yields hpoint.slope_yields rfl
    have hoperator : Yields complexEnv (fun _ => ⟨0, 1⟩) ()
        (constantPowerSlope (.var .sample) 2.0 one)
        (operatorValue complexEnv.tolerances one ⟨0, 1⟩ ⟨1, 0⟩ 2.0) :=
      yields_operatorSlope alikeParts_slopes hpoint.standard hpoint.base_yields
        hpoint.slope_yields fun _ => rfl
    exact ⟨hpoint, _, _, _, _, derive_operator_eq hpoint.slope,
      derive_call_pow_eq (by decide) hpoint.slope, hoperator, hcall, rfl, rfl⟩

end Expr

end CircuitExpr
