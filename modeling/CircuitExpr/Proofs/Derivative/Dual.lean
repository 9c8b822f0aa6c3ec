import Mathlib
import CircuitExpr.Proofs.Derivative.Constructors
import CircuitExpr.Proofs.Evaluation.Yields
import CircuitExpr.Proofs.Function.Library
import CircuitExpr.Proofs.Numeric.Exact

/-!
# Exact evaluation

Two things are evaluated over exact numbers. An expression is evaluated over dual numbers, in which
one variable changes at the rate one and all others stay. And what folding constructors build is
evaluated at a point: over exact numbers nothing is lost when zeros and ones are left out.

## Contents

* `Environment.dual` — the environment of dual numbers
* `Environment.Exact` — size, sign and rounding down are registered, and exact
* `Expr.Yields.sum`, `Expr.Yields.product`, … — what folding constructors yield
* `Expr.Yields.truncate`, `Expr.Yields.chain` — what the rules of differentiation yield
-/

namespace CircuitExpr

open CircuitExpr.Expr LibraryFunction
open List (Forall₂)

/-! ## The environment of dual numbers -/

/-- Sources with a slope: every source becomes two, of which the odd one is seeded. -/
def Bindings.seed (b : Bindings) (v : Variable) : Bindings :=
  { b with
    entries := b.entries.map fun entry =>
      (entry.1, if entry.1 = b.comparison.key v then 2 * entry.2 + 1 else 2 * entry.2) }

/-- The values of the doubled sources: seeded ones change at the rate one, the others stay. -/
def Setting.seeded (setting : Setting ℚ) : Setting Dual :=
  fun source : ℕ => ⟨setting (source / 2), if source % 2 = 1 then 1 else 0⟩

/--
The environment of dual numbers in which a variable changes at the rate one. The slope of a
function is the sum of its partial slopes times the slopes of its arguments.
-/
def Environment.dual {σ : Type} (env : Environment ℚ ℚ σ) (v : Variable)
    (partials : Native → List ℚ → List ℚ) : Environment ℚ Dual σ where
  bindings := env.bindings.seed v
  functions := env.functions
  tolerances := env.tolerances
  natives f xs := do
    let value ← env.natives f (xs.map Dual.value)
    let terms := List.zipWith (· * ·) (partials f (xs.map Dual.value)) (xs.map Dual.slope)
    return ⟨value, terms.sum⟩
  extension := none

theorem Bindings.get?_seed (b : Bindings) (v w : Variable) :
    (b.seed v).get? w =
      (b.get? w).map fun source => if b.comparison.same w v then 2 * source + 1 else 2 * source := by
  obtain ⟨c, entries⟩ := b
  unfold seed get?
  simp only
  induction entries with
  | nil => rfl
  | cons entry rest ih =>
    obtain ⟨key, source⟩ := entry
    rw [List.map_cons, List.lookup_cons, List.lookup_cons]
    by_cases hkey : c.key w = key
    · subst hkey
      by_cases hsame : c.same w v = true
      · simp [hsame, NameComparison.same_iff_key_eq.mp hsame]
      · simp [hsame, NameComparison.not_same_iff_key_ne.mp (Bool.eq_false_iff.mpr hsame)]
    · rw [beq_eq_false_iff_ne.mpr hkey]
      exact ih

theorem Setting.seeded_even (setting : Setting ℚ) (source : ℕ) :
    Setting.seeded setting (2 * source) = .fixed (setting source) := by
  unfold seeded
  rw [Nat.mul_div_cancel_left _ (by decide), if_neg (by omega)]
  rfl

theorem Setting.seeded_odd (setting : Setting ℚ) (source : ℕ) :
    Setting.seeded setting (2 * source + 1) = ⟨setting source, 1⟩ := by
  unfold seeded
  rw [if_pos (by omega), show (2 * source + 1) / 2 = source by omega]

/-! ## Folding constructors over exact numbers -/

variable {σ : Type} {env : Environment ℚ ℚ σ} {setting : Setting ℚ} {host : σ} {a b : Expr ℚ}

/-- The functions that the rules of differentiation bring in are registered, and exact. -/
def Environment.Exact (env : Environment ℚ ℚ σ) (host : σ) : Prop :=
  ∀ f : LibraryFunction, f = .abs ∨ f = .sgn ∨ f = .floor →
    ∃ d, env.functions.resolve f.name 1 = .ok d ∧
      ∀ x : ℚ, (env.natives d.native [x]).run host = (f.apply [x], host)

namespace Expr

variable {x y : ℚ}

theorem Yields.const_eq (h : Yields env setting host (.const y) x) : y = x :=
  (yields_const y).unique h

theorem yields_zero : Yields env setting host zero 0 := yields_const 0

theorem Yields.negate (h : Yields env setting host a x) :
    Yields env setting host (negate a) (-x) := by
  obtain ⟨y, rfl, hd⟩ | ⟨inner, rfl, hd⟩ | hd := negate_cases a
  · rw [hd, ← h.const_eq]
    exact yields_const _
  · rw [hd]
    unfold Yields at h ⊢
    rw [evaluate, Run.outcome_bind_eq_ok] at h
    obtain ⟨y, host', hy, heq⟩ := h
    rw [Run.outcome_pure] at heq
    cases heq
    rw [hy]
    exact congrArg (fun q => (Except.ok q, host)) (neg_neg y).symm
  · rw [hd]
    exact h.unary .minus

theorem Yields.sum (ha : Yields env setting host a x) (hb : Yields env setting host b y) :
    Yields env setting host (sum a b) (x + y) := by
  obtain ⟨x', y', rfl, rfl, hd⟩ | ⟨x', rfl, hzero, hd⟩ | ⟨y', rfl, hzero, hd⟩ | hd :=
    sum_cases a b <;> rw [hd]
  · rw [← ha.const_eq, ← hb.const_eq]
    exact yields_const _
  · rw [← ha.const_eq, eq_of_beq hzero, zero_add]
    exact hb
  · rw [← hb.const_eq, eq_of_beq hzero, add_zero]
    exact ha
  · exact ha.binary hb rfl

theorem Yields.difference (ha : Yields env setting host a x) (hb : Yields env setting host b y) :
    Yields env setting host (difference a b) (x - y) := by
  obtain ⟨x', y', rfl, rfl, hd⟩ | ⟨x', rfl, hzero, hd⟩ | ⟨y', rfl, hzero, hd⟩ | hd :=
    difference_cases a b <;> rw [hd]
  · rw [← ha.const_eq, ← hb.const_eq]
    exact yields_const _
  · rw [← ha.const_eq, eq_of_beq hzero, zero_sub]
    exact hb.negate
  · rw [← hb.const_eq, eq_of_beq hzero, sub_zero]
    exact ha
  · exact ha.binary hb rfl

theorem Yields.product (ha : Yields env setting host a x) (hb : Yields env setting host b y) :
    Yields env setting host (product a b) (x * y) := by
  obtain ⟨x', y', rfl, rfl, hd⟩ | ⟨u, hu, hzero, hd⟩ | ⟨x', rfl, hone, hd⟩ | ⟨y', rfl, hone, hd⟩ |
    hd := product_cases a b <;> rw [hd]
  · rw [← ha.const_eq, ← hb.const_eq]
    exact yields_const _
  · have hproduct : x * y = 0 := by
      rw [mul_eq_zero]
      rcases hu with rfl | rfl
      · exact .inl (ha.const_eq ▸ eq_of_beq hzero)
      · exact .inr (hb.const_eq ▸ eq_of_beq hzero)
    rw [hproduct]
    exact yields_zero
  · rw [← ha.const_eq, eq_of_beq hone, one_mul]
    exact hb
  · rw [← hb.const_eq, eq_of_beq hone, mul_one]
    exact ha
  · exact ha.binary hb rfl

/-- A quotient of expressions is exact away from the denominator zero. -/
theorem Yields.divide (hfudge : env.tolerances.fudge = 0) (ha : Yields env setting host a x)
    (hb : Yields env setting host b y) (hy : y ≠ 0) :
    Yields env setting host (.binary .div a b) (x / y) := by
  refine ha.binary hb ?_
  show Except.ok (Literal.safeDivide x y env.tolerances.fudge) = _
  rw [hfudge, safeDivide_of_ne_zero hy]

theorem Yields.quotient (hfudge : env.tolerances.fudge = 0) (ha : Yields env setting host a x)
    (hb : Yields env setting host b y) (hy : y ≠ 0) :
    Yields env setting host (quotient a b) (x / y) := by
  obtain ⟨x', rfl, hzero, hd⟩ | ⟨y', rfl, hone, hd⟩ | hd := quotient_cases a b <;> rw [hd]
  · rw [← ha.const_eq, eq_of_beq hzero, zero_div]
    exact yields_zero
  · rw [← hb.const_eq, eq_of_beq hone, div_one]
    exact ha
  · exact ha.divide hfudge hb hy

theorem Yields.power (ha : Yields env setting host a x) (n : ℕ) :
    Yields env setting host (.binary .pow a (.const n)) (|x| ^ n) := by
  refine ha.binary (yields_const _) ?_
  rw [← power_natCast]
  rfl

/-- A call of one of the exact functions. -/
theorem Yields.of {f : LibraryFunction} (hexact : env.Exact host)
    (hf : f = .abs ∨ f = .sgn ∨ f = .floor) (ha : Yields env setting host a x) :
    Yields env setting host (LibraryFunction.of f [a]) (f.apply [x]) := by
  obtain ⟨d, hd, hnative⟩ := hexact f hf
  exact yields_call hd (.cons ha .nil) (hnative x)

theorem Yields.sgn (hexact : env.Exact host) (ha : Yields env setting host a x) :
    Yields env setting host (LibraryFunction.of .sgn [a]) (Literal.sign x) :=
  ha.of hexact (.inr (.inl rfl))

/-- Cutting off, written with the exact functions. -/
theorem Yields.truncate (hexact : env.Exact host) (ha : Yields env setting host a x) :
    Yields env setting host
      (Expr.product (LibraryFunction.of .sgn [a])
        (LibraryFunction.of .floor [LibraryFunction.of .abs [a]])) (Rational.truncate x) := by
  rw [← sign_mul_floor_abs]
  exact (ha.sgn hexact).product ((ha.of hexact (.inl rfl)).of hexact (.inr (.inr rfl)))

/-- The chain rule adds up all products, also those that it leaves out. -/
theorem Yields.chain {ps ss : List (Expr ℚ)} {xs ys : List ℚ}
    (hps : Forall₂ (Yields env setting host) ps xs)
    (hss : Forall₂ (Yields env setting host) ss ys) :
    Yields env setting host (chain ps ss) (List.zipWith (· * ·) xs ys).sum := by
  suffices htotal : ∀ total t, Yields env setting host total t →
      Yields env setting host
        ((ps.zip ss).foldl (fun total term =>
          if term.2.isValue 0 then total else Expr.sum total (Expr.product term.1 term.2)) total)
        (t + (List.zipWith (· * ·) xs ys).sum) by
    rw [← zero_add (List.zipWith (· * ·) xs ys).sum]
    exact htotal zero 0 yields_zero
  induction hps generalizing ss ys with
  | nil =>
    intro total t ht
    simpa using ht
  | cons hp _ ih =>
    intro total t ht
    cases hss with
    | nil => simpa using ht
    | @cons s y ss ys hs hss =>
      rw [List.zip_cons_cons, List.foldl_cons, List.zipWith_cons_cons, List.sum_cons, ← add_assoc]
      refine ih hss _ _ ?_
      split
      · next hzero =>
        obtain ⟨u, rfl, hu⟩ := isValue_eq_true.mp hzero
        rw [← hs.const_eq, eq_of_beq hu, mul_zero, add_zero]
        exact ht
      · exact ht.sum (hp.product hs)

end Expr

end CircuitExpr
