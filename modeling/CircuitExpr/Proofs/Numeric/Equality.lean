import Mathlib
import CircuitExpr.Proofs.Evaluation.Purity
import CircuitExpr.Proofs.Evaluation.Yields
import CircuitExpr.Proofs.Numeric.Domains
import CircuitExpr.Proofs.Numeric.Fractions
import CircuitExpr.Proofs.Numeric.Signs

/-!
# Equality within tolerances

Numbers are compared by the size of their difference. A finite number differs from itself by zero,
which is within any tolerance, also where the scale overflows. The difference of an infinity and
itself has no value, though, so that an infinity is not equal to itself. The order of the numbers
does not matter: it turns the sign of the difference around at most.

## Main statements

* `Scalar.ComparesTolerantly` — which numbers equal themselves, and that the order does not matter
* `float_comparesTolerantly`, `complex_comparesTolerantly` — the two domains over doubles
* `Environment.Tolerant` — the same said of expressions
* `Environment.tolerant_float_and_complex` — every environment compares in this way
-/

namespace CircuitExpr

open Binary64 Literal

/-! ## Doubles -/

namespace Binary64

open Float.Model (UnpackedFloat)
open Float.Model.UnpackedFloat

variable {x y r a : Float}

theorem isNaN_eq_true_iff : x.isNaN = true ↔ unpacked x = .notANumber := by
  show (unpacked x).isNaN = true ↔ _
  rcases unpacked x with _ | _ | _ | _ <;> simp [UnpackedFloat.isNaN]

/-- There is one undefined value. -/
theorem eq_of_isNaN (hx : x.isNaN = true) (hy : y.isNaN = true) : x = y := by
  rw [isNaN_eq_true_iff] at hx hy
  rw [← packed_unpacked x, ← packed_unpacked y, hx, hy]

theorem compare_swap (u v : UnpackedFloat) :
    v.compare u = (u.compare v).map Ordering.swap := by
  have hfinite : ∀ (m n : Nat) (e f : Int),
      (compare f e).then (compare n m) = ((compare e f).then (compare m n)).swap := by
    intro m n e f
    rw [Ordering.swap_then, Int.compare_swap, Nat.compare_swap]
  rcases u with (_ | _) | _ | s | ⟨(_ | _), m, e, hm⟩ <;>
    rcases v with (_ | _) | _ | t | ⟨(_ | _), n, f, hn⟩
  case finite.positive.finite.positive => exact congrArg some (hfinite m n e f)
  case finite.negative.finite.negative =>
    exact congrArg (fun o : Ordering => some o.swap) (hfinite m n e f)
  all_goals rfl

/-- Every number equals itself, and what is undefined does not. -/
theorem beq_self_eq (x : Float) : (x == x) = !x.isNaN := by
  have hsame : ∀ (m : Nat) (e : Int), (compare e e).then (compare m m) = .eq := by
    intro m e
    rw [Ordering.then_eq_eq, Int.compare_eq_eq, Nat.compare_eq_eq]
    exact ⟨rfl, rfl⟩
  show ((unpacked x).compare (unpacked x) == some .eq) = !(unpacked x).isNaN
  rcases unpacked x with (_ | _) | _ | s | ⟨(_ | _), m, e, hm⟩
  case finite.negative => exact congrArg (fun o : Ordering => some o.swap == some .eq) (hsame m e)
  case finite.positive => exact congrArg (some · == some .eq) (hsame m e)
  all_goals rfl

theorem compare_eq_none_iff : (unpacked x).compare (unpacked y) = none ↔
    x.isNaN = true ∨ y.isNaN = true := by
  show _ ↔ (unpacked x).isNaN = true ∨ (unpacked y).isNaN = true
  rcases unpacked x with (_ | _) | _ | s | ⟨(_ | _), m, e, hm⟩ <;>
    rcases unpacked y with (_ | _) | _ | t | ⟨(_ | _), n, f, hn⟩ <;>
      simp [UnpackedFloat.compare, UnpackedFloat.isNaN]

/-! ### The greater of two -/

theorem larger_eq (x y : Float) : larger x y = if x < y ∨ x.isNaN = true then y else x := by
  unfold larger
  rw [beq_self_eq, Bool.not_not]
  simp only [Bool.or_eq_true, decide_eq_true_eq]

theorem larger_eq_right (h : x < y ∨ x.isNaN = true) : larger x y = y :=
  (larger_eq x y).trans (if_pos h)

theorem larger_eq_left (hless : ¬ x < y) (hx : ¬ x.isNaN = true) : larger x y = x :=
  (larger_eq x y).trans (if_neg (not_or.mpr ⟨hless, hx⟩))

/-- The greater of two numbers does not depend on their order. -/
theorem larger_comm (x y : Float) : Alike (larger x y) (larger y x) := by
  have hnone := @compare_eq_none_iff x y
  have hlt : x < y ↔ (unpacked x).compare (unpacked y) = some .lt := lt_iff_compare
  have hgt : y < x ↔ (unpacked y).compare (unpacked x) = some .lt := lt_iff_compare
  rw [compare_swap (unpacked x)] at hgt
  rcases hcompare : (unpacked x).compare (unpacked y) with _ | o <;>
    rw [hcompare] at hlt hgt hnone
  · have hless : ¬ x < y := mt hlt.mp nofun
    have hmore : ¬ y < x := mt hgt.mp nofun
    by_cases hx : x.isNaN = true <;> by_cases hy : y.isNaN = true
    · rw [eq_of_isNaN hx hy]
      exact .refl _
    · rw [larger_eq_right (.inr hx), larger_eq_left hmore hy]
      exact .refl _
    · rw [larger_eq_left hless hx, larger_eq_right (.inr hy)]
      exact .refl _
    · exact absurd (hnone.mp rfl) (not_or.mpr ⟨hx, hy⟩)
  · obtain ⟨hx, hy⟩ := not_or.mp (mt hnone.mpr nofun)
    cases o with
    | lt =>
      rw [larger_eq_right (.inl (hlt.mpr rfl)), larger_eq_left (mt hgt.mp nofun) hy]
      exact .refl _
    | gt =>
      rw [larger_eq_left (mt hlt.mp nofun) hx, larger_eq_right (.inl (hgt.mpr rfl))]
      exact .refl _
    | eq =>
      rw [larger_eq_left (mt hlt.mp nofun) hx, larger_eq_left (mt hgt.mp nofun) hy]
      exact alike_of_beq (by rw [beq_eq_compare, hcompare]; rfl)

/-- What is below zero is below everything that is not. -/
theorem lt_of_not_nonneg (hr : ¬ 0 ≤ r) (hnumber : ¬ r.isNaN = true) (ha : 0 ≤ a) : r < a := by
  have hzero : unpacked 0 = .zero .positive := rfl
  have hnumber : ¬ (unpacked r).isNaN = true := hnumber
  rw [le_iff_compare, hzero] at hr ha
  rw [lt_iff_compare]
  generalize unpacked a = v at ha ⊢
  generalize unpacked r = u at hr hnumber ⊢
  rcases v with (_ | _) | _ | t | ⟨(_ | _), n, f, hn⟩
  case infinity.negative | notANumber | finite.negative => exact nomatch ha
  all_goals
    rcases u with (_ | _) | _ | s | ⟨(_ | _), m, e, hm⟩
    case notANumber => exact absurd rfl hnumber
    case infinity.negative | finite.negative => rfl
    all_goals exact absurd rfl hr

/-- The greater of any value and a number that is not negative is not negative. -/
theorem larger_nonneg (ha : 0 ≤ a) (r : Float) : 0 ≤ larger r a := by
  rw [larger_eq]
  split
  · exact ha
  · next hr =>
    obtain ⟨hless, hnumber⟩ := not_or.mp hr
    by_contra hneg
    exact hless (lt_of_not_nonneg hneg hnumber ha)

/-! ### Differences -/

theorem abs_neg_eq (x : Float) : (-x).abs = x.abs := by
  show packed (unpacked (-x)).abs = packed (unpacked x).abs
  rw [unpacked_neg]
  rcases unpacked x with _ | _ | _ | _ <;> rfl

theorem normalize_neg (k : Int) (e : Int) :
    Same (UnpackedFloat.normalize .binary64 (-k) e .positive)
      (UnpackedFloat.normalize .binary64 k e .positive).neg := by
  have hround : ∀ s m, round .binary64 (-s) m e = (round .binary64 s m e).neg := fun s m =>
    round_neg s _ _ _
  unfold UnpackedFloat.normalize
  rcases Int.lt_trichotomy k 0 with hk | rfl | hk
  · rw [Int.compare_eq_gt.mpr (by omega), Int.compare_eq_lt.mpr hk]
    exact hround .negative _ ▸ .refl _
  · exact .zero _ _
  · rw [Int.compare_eq_lt.mpr (by omega), Int.compare_eq_gt.mpr hk]
    simp only [Int.neg_neg]
    exact hround .positive _ ▸ .refl _

/-- The other way round a difference has the other sign. -/
theorem same_sub_swap (u v : UnpackedFloat) : Same (sub .binary64 v u) (sub .binary64 u v).neg := by
  rcases u with (_ | _) | _ | (_ | _) | ⟨(_ | _), m, e, hm⟩ <;>
    rcases v with (_ | _) | _ | (_ | _) | ⟨(_ | _), n, f, hn⟩
  case finite.negative.finite.negative | finite.negative.finite.positive |
      finite.positive.finite.negative | finite.positive.finite.positive =>
    simp only [sub, Int.min_comm f e]
    rw [← Int.neg_sub]
    exact normalize_neg _ _
  all_goals
    first | exact .refl _ | exact .zero _ _

theorem sub_swap_alike (x y : Float) : Alike (y - x) (-(x - y)) := by
  have h := (same_sub_swap (unpacked x) (unpacked y)).packed
  rwa [← neg_packed] at h

/-- The value of what has no value. -/
theorem not_undefined_le (y : Float) : ¬ (0 / 0 : Float) ≤ y := by
  have hundefined : unpacked (0 / 0 : Float) = .notANumber := rfl
  rw [le_iff_compare, hundefined]
  exact nofun

/-- A finite number differs from itself by zero, any other by an undefined value. -/
theorem sub_self_eq (x : Float) : x - x = if x.isFinite = true then 0 else 0 / 0 := by
  show packed (sub .binary64 (unpacked x) (unpacked x)) =
    if (unpacked x).isFinite = true then packed (.zero .positive) else packed .notANumber
  rcases unpacked x with (_ | _) | _ | (_ | _) | ⟨s, m, e, hm⟩ <;> try rfl
  simp only [sub, Int.sub_self]
  rfl

/-- So does the length of a difference: it is undefined unless both parts are finite. -/
theorem hypotenuse_sub_self (x y : Float) : hypotenuse (x - x) (y - y) =
    if (x.isFinite && y.isFinite) = true then 0 else 0 / 0 := by
  rw [sub_self_eq, sub_self_eq]
  rcases x.isFinite <;> rcases y.isFinite <;> rfl

/-- A number and its negative are fractions of the same size. -/
theorem ofFloat_neg (hx : x.isFinite = true) :
    (ofFloat (-x)).mantissa = (ofFloat x).mantissa ∧
      (ofFloat (-x)).exponent = (ofFloat x).exponent := by
  have hx : (unpacked x).isFinite = true := hx
  have hneg := unpacked_neg x
  rcases hu : unpacked x with s | _ | s | ⟨s, m, e, hm⟩ <;> rw [hu] at hneg hx
  case infinity | notANumber => exact nomatch hx
  case zero =>
    rw [ofFloat_of_zero hu, ofFloat_of_zero hneg]
    exact ⟨rfl, rfl⟩
  case finite =>
    rw [ofFloat_of_finite hu, ofFloat_of_finite hneg]
    exact ⟨rfl, rfl⟩

theorem isInf_neg (x : Float) : (-x).isInf = x.isInf := by
  show (unpacked (-x)).isInf = (unpacked x).isInf
  rw [unpacked_neg]
  rcases unpacked x with _ | _ | _ | _ <;> rfl

theorem isNaN_neg (x : Float) : (-x).isNaN = x.isNaN := by
  show (unpacked (-x)).isNaN = (unpacked x).isNaN
  rw [unpacked_neg]
  rcases unpacked x with _ | _ | _ | _ <;> rfl

theorem isFinite_eq (x : Float) : x.isFinite = (!x.isInf && !x.isNaN) := by
  show (unpacked x).isFinite = (!(unpacked x).isInf && !(unpacked x).isNaN)
  rcases unpacked x with _ | _ | _ | _ <;> rfl

/-- Turning both parts around does not change the length. -/
theorem hypotenuse_neg (x y : Float) : hypotenuse (-x) (-y) = hypotenuse x y := by
  unfold hypotenuse
  rw [isInf_neg, isInf_neg, isNaN_neg, isNaN_neg]
  split
  · rfl
  · next hinf =>
    split
    · rfl
    · next hnan =>
      rw [Bool.not_eq_true, Bool.or_eq_false_iff] at hinf hnan
      have hx : x.isFinite = true := by rw [isFinite_eq, hinf.1, hnan.1]; rfl
      have hy : y.isFinite = true := by rw [isFinite_eq, hinf.2, hnan.2]; rfl
      simp only [mantissaAt, (ofFloat_neg hx).1, (ofFloat_neg hx).2, (ofFloat_neg hy).1,
        (ofFloat_neg hy).2]
      rfl

end Binary64

/-! ## The domains -/

/-- Which numbers of a domain equal themselves, and that the order of two does not matter. -/
structure Scalar.ComparesTolerantly {D : Type} [Scalar D Float] (finite : D → Bool) : Prop where
  self (x : D) {tolerances : Tolerances Float} (h : 0 ≤ tolerances.absolute) :
    Scalar.fuzzyEquals x x tolerances = finite x
  comm (x y : D) (tolerances : Tolerances Float) :
    Scalar.fuzzyEquals x y tolerances = Scalar.fuzzyEquals y x tolerances

/-- Whether a distance from zero is within what tolerances leave is a matter of being defined. -/
theorem decide_le_larger {a : Float} (ha : 0 ≤ a) (r : Float) (finite : Bool) :
    decide ((if finite = true then (0 : Float) else 0 / 0) ≤ larger r a) = finite := by
  cases finite with
  | true => exact decide_eq_true (larger_nonneg ha r)
  | false => exact decide_eq_false (not_undefined_le _)

theorem float_comparesTolerantly : Scalar.ComparesTolerantly Float.isFinite where
  self x tolerances h := by
    have hdistance : (x - x).abs = if x.isFinite = true then (0 : Float) else 0 / 0 := by
      rw [sub_self_eq]
      cases x.isFinite <;> rfl
    show decide ((x - x).abs ≤ larger (tolerances.relative * _) tolerances.absolute) = _
    rw [hdistance, decide_le_larger h]
  comm x y tolerances := by
    have hdistance : (y - x).abs = (x - y).abs := by
      rw [(sub_swap_alike x y).abs_eq, abs_neg_eq]
    have hscale := (Alike.refl tolerances.relative).mul (larger_comm x.abs y.abs)
    show decide ((x - y).abs ≤ larger (tolerances.relative * larger x.abs y.abs)
        tolerances.absolute) =
      decide ((y - x).abs ≤ larger (tolerances.relative * larger y.abs x.abs) tolerances.absolute)
    rw [hdistance]
    exact decide_eq_decide.mpr ((Alike.refl _).le_iff (hscale.larger (.refl _)))

/-- Whether both parts are finite. -/
def Complex.isFinite (z : Complex Float) : Bool := z.re.isFinite && z.im.isFinite

theorem complex_comparesTolerantly : Scalar.ComparesTolerantly Complex.isFinite where
  self z tolerances h := by
    have hdistance : (z - z).norm = if z.isFinite = true then (0 : Float) else 0 / 0 :=
      hypotenuse_sub_self z.re z.im
    show decide ((z - z).norm ≤ larger (tolerances.relative * _) tolerances.absolute) = _
    rw [hdistance, decide_le_larger h]
  comm z w tolerances := by
    have hdistance : (w - z).norm = (z - w).norm :=
      ((sub_swap_alike z.re w.re).hypotenuse_eq (sub_swap_alike z.im w.im)).trans
        (hypotenuse_neg _ _)
    have hscale := (Alike.refl tolerances.relative).mul (larger_comm z.norm w.norm)
    show decide ((z - w).norm ≤ larger (tolerances.relative * larger z.norm w.norm)
        tolerances.absolute) =
      decide ((w - z).norm ≤ larger (tolerances.relative * larger w.norm z.norm)
        tolerances.absolute)
    rw [hdistance]
    exact decide_eq_decide.mpr ((Alike.refl _).le_iff (hscale.larger (.refl _)))

/-! ## Expressions -/

/--
How an environment compares expressions whose functions are pure: one that has a value equals
itself where that value is finite and differs from itself elsewhere, and two that have values are
equal in both orders or in none.
-/
structure Environment.Tolerant {D σ : Type} [Scalar D Float] (env : Environment Float D σ)
    (finite : D → Bool) : Prop where
  self {setting : Setting D} {host host' : σ} {e : Expr Float} {x : D} (hpure : env.PureFor e)
    (h : (e.evaluate env setting).outcome host = (.ok x, host')) :
    ((Expr.binary .eq e e).evaluate env setting).outcome host =
        (.ok (Scalar.ofBool (finite x)), host) ∧
      ((Expr.binary .ne e e).evaluate env setting).outcome host =
        (.ok (Scalar.ofBool (!finite x)), host)
  comm {setting : Setting D} {host hosta hostb : σ} {a b : Expr Float} {x y : D}
    (hpurea : env.PureFor a) (hpureb : env.PureFor b)
    (ha : (a.evaluate env setting).outcome host = (.ok x, hosta))
    (hb : (b.evaluate env setting).outcome host = (.ok y, hostb)) :
    ∃ flag : Bool,
      ((Expr.binary .eq a b).evaluate env setting).outcome host =
          (.ok (Scalar.ofBool flag), host) ∧
        ((Expr.binary .eq b a).evaluate env setting).outcome host =
          (.ok (Scalar.ofBool flag), host)

section Expressions

variable {D σ : Type} [Scalar D Float] {env : Environment Float D σ}

/-- A value of a pure expression leaves the host as it is. -/
theorem Expr.yields_of_outcome {setting : Setting D} {host host' : σ} {e : Expr Float} {x : D}
    (hpure : env.PureFor e) (h : (e.evaluate env setting).outcome host = (.ok x, host')) :
    Expr.Yields env setting host e x := by
  obtain ⟨_, hvalue⟩ := Expr.exists_value hpure setting
  have hhost : host' = host := by
    have hstate := (hvalue host).2
    rwa [h] at hstate
  rwa [hhost] at h

theorem Scalar.ComparesTolerantly.tolerant {finite : D → Bool}
    (hcompare : Scalar.ComparesTolerantly finite) (h : 0 ≤ env.tolerances.absolute) :
    env.Tolerant finite where
  self {setting host host' e x} hpure hx := by
    have hx := Expr.yields_of_outcome hpure hx
    have hself := hcompare.self x h
    have heq : BinaryOp.eq.apply env.tolerances x x = .ok (Scalar.ofBool (finite x)) := by
      rw [BinaryOp.apply, hself]
    have hne : BinaryOp.ne.apply env.tolerances x x = .ok (Scalar.ofBool (!finite x)) := by
      rw [BinaryOp.apply, hself]
    exact ⟨hx.binary hx heq, hx.binary hx hne⟩
  comm {setting host hosta hostb a b x y} hpurea hpureb ha hb := by
    have ha := Expr.yields_of_outcome hpurea ha
    have hb := Expr.yields_of_outcome hpureb hb
    have heq : BinaryOp.eq.apply env.tolerances y x = BinaryOp.eq.apply env.tolerances x y := by
      rw [BinaryOp.apply, BinaryOp.apply, hcompare.comm]
    exact ⟨_, ha.binary hb rfl, hb.binary ha heq⟩

end Expressions

/--
**Tolerant equality contains the equality of finite numbers**, in both domains over doubles and
for every absolute tolerance that is not negative, and it is symmetric.
-/
theorem Environment.tolerant_float_and_complex {σ : Type} :
    (∀ env : Environment Float Float σ, 0 ≤ env.tolerances.absolute → env.Tolerant Float.isFinite) ∧
      ∀ env : Environment Float (Complex Float) σ, 0 ≤ env.tolerances.absolute →
        env.Tolerant Complex.isFinite :=
  ⟨fun _ h => float_comparesTolerantly.tolerant h, fun _ h => complex_comparesTolerantly.tolerant h⟩

/-! ### Divisions that are not moved away from zero -/

/-- The library without any variables, and no fudge. -/
def Environment.unfudged {D : Type} [Scalar D Float] : Environment Float D Unit :=
  { Environment.ofBindings (.empty .caseSensitive) with
    tolerances := { Tolerances.default with fudge := 0 } }

theorem Environment.unfudged_pureFor {D : Type} [Scalar D Float] {e : Expr Float} (h : e.Plain) :
    (unfudged : Environment Float D Unit).PureFor e where
  functions := by
    intro _ d _ values
    rcases d with ⟨_, _ | _, _⟩ <;> exact ⟨_, fun _ => rfl⟩
  extension := .inl h

/-- In both domains the number two equals itself. -/
theorem Environment.tolerant_two :
    0 ≤ (Tolerances.default : Tolerances Float).absolute ∧
      ((Expr.binary .eq (.const 2) (.const 2)).evaluate (unfudged (D := Float)) fun _ => 0).outcome
          () = (.ok (Scalar.ofBool true), ()) ∧
        ((Expr.binary .eq (.const 2) (.const 2)).evaluate (unfudged (D := Complex Float))
          fun _ => ⟨0, 0⟩).outcome () = (.ok (Scalar.ofBool true), ()) :=
  have h : 0 ≤ (Tolerances.default : Tolerances Float).absolute := by decide +kernel
  ⟨h, ((tolerant_float_and_complex.1 unfudged h).self (unfudged_pureFor (.const 2)) rfl).1,
    ((tolerant_float_and_complex.2 unfudged h).self (unfudged_pureFor (.const 2)) rfl).1⟩

/--
A quotient by zero is infinite by design, and this infinity does not equal itself: the difference
is taken before the two are looked at.
-/
theorem Expr.infinite_quotient_ne_self :
    let e : Expr Float := .binary .div (.const 1) (.const 0)
    let env : Environment Float Float Unit := .unfudged
    (0 ≤ env.tolerances.absolute ∧ 0 ≤ env.tolerances.relative ∧ 0 ≤ env.tolerances.fudge) ∧
      env.PureFor e ∧
        (e.evaluate env fun _ => 0).outcome () = (.ok Literal.infinity, ()) ∧
          Float.isNaN Literal.infinity = false ∧
            ((Expr.binary .eq e e).evaluate env fun _ => 0).outcome () = (.ok 0, ()) ∧
              ((Expr.binary .ne e e).evaluate env fun _ => 0).outcome () = (.ok 1, ()) := by
  refine ⟨⟨by decide +kernel, by decide +kernel, by decide +kernel⟩,
    Environment.unfudged_pureFor (.binary .div (.const 1) (.const 0)), rfl, rfl, rfl, rfl⟩

end CircuitExpr
