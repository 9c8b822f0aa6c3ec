import Mathlib
import CircuitExpr.Proofs.Derivative.Dual
import CircuitExpr.Proofs.Evaluation.Validity

/-!
# Derivatives are right in exact arithmetic

Evaluating an expression over dual numbers, with slope one for a variable and slope zero for all
others, finds its slope at one point by the rules of differentiation. The derivative is an
expression that is to yield this slope at every point, away from zero denominators.

## Main statements

* `Expr.Smooth` — what the rules of differentiation are for, at one point
* `HasSlope` — a derivative yields the slope; one lemma for each rule
* `Expr.derive_exact` — the derivative exists and yields the slope of the dual number
-/

namespace CircuitExpr

open CircuitExpr.Expr LibraryFunction
open List (Forall₂)

/-! ## Smooth points -/

variable {σ : Type} {env : Environment ℚ ℚ σ} {setting : Setting ℚ} {host : σ}
  {partials : Native → List ℚ → List ℚ} {v : Variable} {a b c da db dc : Expr ℚ}

/--
A point at which no denominator is zero. Exponents are constant whole numbers that are not
negative, and every function called has a rule that yields its partial slopes.
-/
inductive Expr.Smooth (env : Environment ℚ ℚ σ) (setting : Setting ℚ) (host : σ)
    (partials : Native → List ℚ → List ℚ) : Expr ℚ → Prop where
  | const (value : ℚ) : Smooth env setting host partials (.const value)
  | var (v : Variable) : Smooth env setting host partials (.var v)
  | unary (op : UnaryOp) {operand : Expr ℚ} (h : Smooth env setting host partials operand) :
      Smooth env setting host partials (.unary op operand)
  | binary {op : BinaryOp} {left right : Expr ℚ}
      (hop : op ≠ .div ∧ op ≠ .mod ∧ op ≠ .pow) (hleft : Smooth env setting host partials left)
      (hright : Smooth env setting host partials right) :
      Smooth env setting host partials (.binary op left right)
  | division {op : BinaryOp} {left right : Expr ℚ} {y : ℚ} (hop : op = .div ∨ op = .mod)
      (hleft : Smooth env setting host partials left)
      (hright : Smooth env setting host partials right)
      (hy : Yields env setting host right y) (hne : y ≠ 0) :
      Smooth env setting host partials (.binary op left right)
  | power {base : Expr ℚ} (n : ℕ) (h : Smooth env setting host partials base) :
      Smooth env setting host partials (.binary .pow base (.const n))
  | cond {condition whenTrue whenFalse : Expr ℚ}
      (hcondition : Smooth env setting host partials condition)
      (htrue : Smooth env setting host partials whenTrue)
      (hfalse : Smooth env setting host partials whenFalse) :
      Smooth env setting host partials (.cond condition whenTrue whenFalse)
  | call {name : String} {arguments : List (Expr ℚ)} {d : FunctionDefinition ℚ}
      {rule : DerivativeRule ℚ} {values : List ℚ} {x : ℚ}
      (h : ∀ e ∈ arguments, Smooth env setting host partials e)
      (hd : env.functions.resolve name arguments.length = .ok d) (hrule : d.rule = some rule)
      (hvalues : Forall₂ (Yields env setting host) arguments values)
      (hx : (env.natives d.native values).run host = (x, host))
      (hlength : (partials d.native values).length = values.length)
      (hpartials : Forall₂ (Yields env setting host) (rule arguments) (partials d.native values)) :
      Smooth env setting host partials (.call name arguments)

/-! ## One rule after another -/

/--
The derivative exists and yields the slope of the dual number that the expression yields. Without
the variable there is no slope.
-/
structure HasSlope (env : Environment ℚ ℚ σ) (setting : Setting ℚ) (host : σ)
    (partials : Native → List ℚ → List ℚ) (v : Variable) (e d : Expr ℚ) (z : Dual) : Prop where
  derive : derive env.functions env.bindings.comparison v e = .ok d
  dual : Yields (env.dual v partials) setting.seeded host e z
  value : Yields env setting host e z.value
  slope : Yields env setting host d z.slope
  absent : e.dependsOn env.bindings.comparison v = false → z.slope = 0

namespace HasSlope

variable {x y z : Dual}

theorem const (value : ℚ) :
    HasSlope env setting host partials v (.const value) zero (.fixed value) where
  derive := derive_const _ _ _ value
  dual := yields_const value
  value := yields_const value
  slope := yields_zero
  absent _ := rfl

theorem var {w : Variable} (hbound : env.bindings.contains w = true) :
    ∃ d z, HasSlope env setting host partials v (.var w) d z := by
  obtain ⟨source, hsource⟩ := Option.isSome_iff_exists.mp hbound
  have hseed : (env.dual v partials).bindings.get? w = _ := Bindings.get?_seed env.bindings v w
  rw [hsource, Option.map_some] at hseed
  by_cases hsame : env.bindings.comparison.same w v = true
  · rw [if_pos hsame] at hseed
    refine ⟨one, ⟨setting source, 1⟩, by rw [derive_var, if_pos hsame], ?_,
      yields_var hsource, yields_const 1, ?_⟩
    · rw [← Setting.seeded_odd]
      exact yields_var hseed
    · intro habsent
      rw [dependsOn, hsame] at habsent
      cases habsent
  · rw [if_neg hsame] at hseed
    refine ⟨zero, .fixed (setting source), by rw [derive_var, if_neg hsame], ?_,
      yields_var hsource, yields_zero, fun _ => rfl⟩
    rw [← Setting.seeded_even]
    exact yields_var hseed

theorem plus (h : HasSlope env setting host partials v a da x) :
    HasSlope env setting host partials v (.unary .plus a) da x where
  derive := by rw [derive_plus, h.derive]
  dual := h.dual.unary .plus
  value := h.value.unary .plus
  slope := h.slope
  absent := h.absent

theorem minus (h : HasSlope env setting host partials v a da x) :
    HasSlope env setting host partials v (.unary .minus a) (negate da) (-x) where
  derive := derive_minus_eq h.derive
  dual := h.dual.unary .minus
  value := h.value.unary .minus
  slope := h.slope.negate
  absent habsent := by rw [Dual.neg_eq, h.absent habsent, neg_zero]

theorem not (h : HasSlope env setting host partials v a da x) :
    HasSlope env setting host partials v (.unary .not a) zero
      (.fixed (Scalar.ofBool (!Scalar.isTrue x.value))) where
  derive := derive_not _ _ _ a
  dual := h.dual.unary .not
  value := h.value.unary .not
  slope := yields_zero
  absent _ := rfl

/-- Flags have no slope. -/
theorem logical {op : BinaryOp} (hop : op.isLogical = true)
    (ha : HasSlope env setting host partials v a da x)
    (hb : HasSlope env setting host partials v b db y) :
    ∃ z, HasSlope env setting host partials v (.binary op a b) zero z := by
  obtain ⟨flag, hvalue, hdual⟩ := Dual.apply_logical hop env.tolerances x y
  exact ⟨.fixed flag, derive_logical_eq hop, ha.dual.binary hb.dual hdual,
    ha.value.binary hb.value hvalue, yields_zero, fun _ => rfl⟩

theorem absent_left {op : BinaryOp}
    (h : (Expr.binary op a b).dependsOn env.bindings.comparison v = false) :
    a.dependsOn env.bindings.comparison v = false := by
  rw [dependsOn, Bool.or_eq_false_iff] at h
  exact h.1

theorem absent_right {op : BinaryOp}
    (h : (Expr.binary op a b).dependsOn env.bindings.comparison v = false) :
    b.dependsOn env.bindings.comparison v = false := by
  rw [dependsOn, Bool.or_eq_false_iff] at h
  exact h.2

section Operators

variable (ha : HasSlope env setting host partials v a da x)
  (hb : HasSlope env setting host partials v b db y)
include ha hb

/-- An operator whose slope is put together from the slopes of its operands. -/
theorem operator {op : BinaryOp} (hop : op.isLogical = false)
    (hdual : op.apply env.tolerances x y = .ok z)
    (hvalue : op.apply env.tolerances x.value y.value = .ok z.value)
    (hslope : Yields env setting host (binarySlope op a b da db) z.slope)
    (habsent : x.slope = 0 → y.slope = 0 → z.slope = 0) :
    HasSlope env setting host partials v (.binary op a b) (binarySlope op a b da db) z where
  derive := derive_binary_eq hop ha.derive hb.derive
  dual := ha.dual.binary hb.dual hdual
  value := ha.value.binary hb.value hvalue
  slope := hslope
  absent h := habsent (ha.absent (absent_left h)) (hb.absent (absent_right h))

theorem add : HasSlope env setting host partials v (.binary .add a b)
    (binarySlope .add a b da db) (x + y) := by
  refine ha.operator hb rfl rfl rfl (ha.slope.sum hb.slope) fun hx hy => ?_
  simp [hx, hy]

theorem sub : HasSlope env setting host partials v (.binary .sub a b)
    (binarySlope .sub a b da db) (x - y) := by
  refine ha.operator hb rfl rfl rfl (ha.slope.difference hb.slope) fun hx hy => ?_
  simp [hx, hy]

theorem mul : HasSlope env setting host partials v (.binary .mul a b)
    (binarySlope .mul a b da db) (x * y) := by
  refine ha.operator hb rfl rfl rfl ?_ fun hx hy => by simp [hx, hy]
  exact (ha.slope.product hb.value).sum (ha.value.product hb.slope)

theorem div (hfudge : env.tolerances.fudge = 0) (hne : y.value ≠ 0) :
    HasSlope env setting host partials v (.binary .div a b) (binarySlope .div a b da db)
      (Dual.divide x y env.tolerances.fudge) := by
  refine ha.operator hb rfl rfl rfl ?_ fun hx hy => by simp [Dual.divide, hx, hy]
  have hnumerator := (ha.slope.product hb.value).difference (ha.value.product hb.slope)
  exact hnumerator.quotient hfudge (hb.value.product hb.value) (mul_ne_zero hne hne)

theorem mod (hfudge : env.tolerances.fudge = 0) (hexact : env.Exact host) (hne : y.value ≠ 0) :
    HasSlope env setting host partials v (.binary .mod a b) (binarySlope .mod a b da db)
      (Dual.remainder x y) := by
  refine ha.operator hb rfl rfl rfl ?_ fun hx hy => by simp [Dual.remainder, hx, hy]
  have hratio := ha.value.quotient hfudge hb.value hne
  exact ha.slope.difference ((hratio.truncate hexact).product hb.slope)

end Operators

/-- The short forms for small exponents are cases of the general one. -/
theorem power (hexact : env.Exact host) (ha : HasSlope env setting host partials v a da x)
    (n : ℕ) :
    HasSlope env setting host partials v (.binary .pow a (.const n))
      (binarySlope .pow a (.const n) da zero) (Dual.power x (.fixed n)) := by
  refine ha.operator (const (n : ℚ)) rfl rfl rfl ?_ fun hx _ => by simp [Dual.power, hx]
  rw [Dual.power_slope]
  show Yields env setting host (constantPowerSlope a n da) _
  have hsgn := ha.value.sgn hexact
  unfold constantPowerSlope
  split
  · next hn =>
    rw [eq_of_beq hn]
    simpa using yields_zero
  · next hzero =>
    split
    · next hn =>
      have hn : n = 1 := by exact_mod_cast eq_of_beq hn
      subst hn
      simpa using hsgn.product ha.slope
    · split
      · next hn =>
        have hn : n = 2 := by
          have : (n : ℚ) = 2 := (eq_of_beq hn).trans (by norm_num)
          exact_mod_cast this
        subst hn
        have hsquare : ((2 : ℕ) : ℚ) * |x.value| ^ (2 - 1) * Literal.sign x.value =
            2.0 * x.value := by
          rw [Nat.cast_two, pow_one, mul_assoc, sign_mul_abs]
          norm_num
        rw [hsquare]
        exact ((yields_const (2.0 : ℚ)).product ha.value).product ha.slope
      · have hpos : 1 ≤ n := Nat.one_le_iff_ne_zero.mpr fun h => hzero (by simp [h])
        have hpred : (n : ℚ) - 1 = ((n - 1 : ℕ) : ℚ) := by rw [Nat.cast_sub hpos, Nat.cast_one]
        have hguard : ¬ (n : ℚ) < 1 := by exact_mod_cast hpos.not_gt
        simp only [hpred, if_neg hguard]
        exact (((yields_const (n : ℚ)).product (ha.value.power (n - 1))).product hsgn).product
          ha.slope

/-- Of the slopes of both values the condition chooses; equal constants need no choice. -/
theorem cond (hc : HasSlope env setting host partials v c dc z)
    (ha : HasSlope env setting host partials v a da x)
    (hb : HasSlope env setting host partials v b db y) :
    HasSlope env setting host partials v (.cond c a b) (conditionalSlope c da db)
      (if Scalar.isTrue z then x else y) where
  derive := derive_cond_eq ha.derive hb.derive
  dual := by
    refine hc.dual.cond ?_
    split
    · exact ha.dual
    · exact hb.dual
  value := by
    refine hc.value.cond ?_
    rw [← Dual.isTrue_eq]
    split
    · exact ha.value
    · exact hb.value
  slope := by
    obtain ⟨p, q, rfl, rfl, hequal, hd⟩ | hd := conditionalSlope_cases c da db
    · rw [hd]
      split
      · exact ha.slope
      · rw [eq_of_beq hequal]
        exact hb.slope
    · rw [hd]
      refine hc.value.cond ?_
      rw [← Dual.isTrue_eq]
      split
      · exact ha.slope
      · exact hb.slope
  absent h := by
    rw [dependsOn, Bool.or_eq_false_iff, Bool.or_eq_false_iff] at h
    split
    · exact ha.absent h.1.2
    · exact hb.absent h.2

/-! ## Calls -/

variable {es ds : List (Expr ℚ)} {zs : List Dual}

/-- Several expressions, each with its derivative and its dual number. -/
structure Each (env : Environment ℚ ℚ σ) (setting : Setting ℚ) (host : σ)
    (partials : Native → List ℚ → List ℚ) (v : Variable) (es ds : List (Expr ℚ))
    (zs : List Dual) : Prop where
  derive : deriveEach env.functions env.bindings.comparison v es = .ok ds
  dual : Forall₂ (Yields (env.dual v partials) setting.seeded host) es zs
  value : Forall₂ (Yields env setting host) es (zs.map Dual.value)
  slope : Forall₂ (Yields env setting host) ds (zs.map Dual.slope)
  absent : anyDependsOn env.bindings.comparison v es = false → ∀ z ∈ zs, z.slope = 0

theorem exists_each (h : ∀ e ∈ es, ∃ d z, HasSlope env setting host partials v e d z) :
    ∃ ds zs, Each env setting host partials v es ds zs := by
  induction es with
  | nil => exact ⟨[], [], deriveEach_nil _ _ _, .nil, .nil, .nil, fun _ => nofun⟩
  | cons e rest ih =>
    obtain ⟨⟨d, z, hd⟩, hrest⟩ := List.forall_mem_cons.mp h
    obtain ⟨ds, zs, hds⟩ := ih hrest
    refine ⟨d :: ds, z :: zs, ?_, .cons hd.dual hds.dual, .cons hd.value hds.value,
      .cons hd.slope hds.slope, ?_⟩
    · rw [deriveEach_cons, hd.derive, hds.derive]
      rfl
    · intro habsent
      rw [anyDependsOn, Bool.or_eq_false_iff] at habsent
      exact List.forall_mem_cons.mpr ⟨hd.absent habsent.1, hds.absent habsent.2⟩

/-- Without slopes there is nothing to add up. -/
theorem sum_zipWith_eq_zero {xs ys : List ℚ} (h : ∀ y ∈ ys, y = 0) :
    (List.zipWith (· * ·) xs ys).sum = 0 := by
  induction xs generalizing ys with
  | nil => rfl
  | cons x rest ih =>
    cases ys with
    | nil => rfl
    | cons y ys =>
      obtain ⟨rfl, hys⟩ := List.forall_mem_cons.mp h
      rw [List.zipWith_cons_cons, List.sum_cons, ih hys, mul_zero, add_zero]

theorem yieldsAll_unique {xs ys : List ℚ} (h : Forall₂ (Yields env setting host) es xs)
    (h' : Forall₂ (Yields env setting host) es ys) : xs = ys := by
  induction h generalizing ys with
  | nil =>
    cases h'
    rfl
  | cons hx _ ih =>
    cases h' with
    | cons hy h' => rw [hx.unique hy, ih h']

/-- The chain rule, for a call that depends on the variable and for one that does not. -/
theorem call {name : String} {f : FunctionDefinition ℚ} {rule : DerivativeRule ℚ}
    {values : List ℚ} {result : ℚ} (h : Each env setting host partials v es ds zs)
    (hf : env.functions.resolve name es.length = .ok f) (hrule : f.rule = some rule)
    (hvalues : Forall₂ (Yields env setting host) es values)
    (hresult : (env.natives f.native values).run host = (result, host))
    (hlength : (partials f.native values).length = values.length)
    (hpartials : Forall₂ (Yields env setting host) (rule es) (partials f.native values)) :
    ∃ d z, HasSlope env setting host partials v (.call name es) d z := by
  have hsame := yieldsAll_unique h.value hvalues
  let total := (List.zipWith (· * ·) (partials f.native values) (zs.map Dual.slope)).sum
  have hnative : ((env.dual v partials).natives f.native zs).run host = (⟨result, total⟩, host) := by
    show ((env.natives f.native (zs.map Dual.value)) >>= _).run host = _
    rw [hsame, StateT.run_bind, hresult]
    rfl
  have hdual : Yields (env.dual v partials) setting.seeded host (.call name es) ⟨result, total⟩ :=
    yields_call hf h.dual hnative
  have hvalue : Yields env setting host (.call name es) result :=
    yields_call hf hvalues hresult
  have hzero : anyDependsOn env.bindings.comparison v es = false → total = 0 := by
    intro habsent
    refine sum_zipWith_eq_zero fun y hy => ?_
    obtain ⟨z, hz, rfl⟩ := List.mem_map.mp hy
    exact h.absent habsent z hz
  by_cases hdepends : anyDependsOn env.bindings.comparison v es = true
  · have hcount : (rule es).length = es.length := by
      rw [hpartials.length_eq, hlength, ← hvalues.length_eq]
    exact ⟨chain (rule es) ds, ⟨result, total⟩,
      derive_call_eq hdepends hf hrule hcount h.derive, hdual, hvalue, Yields.chain hpartials h.slope,
      fun habsent => hzero habsent⟩
  · rw [Bool.not_eq_true] at hdepends
    refine ⟨zero, ⟨result, total⟩, derive_call_of_absent hdepends, hdual, hvalue, ?_,
      fun _ => hzero hdepends⟩
    show Yields env setting host zero total
    rw [hzero hdepends]
    exact yields_zero

end HasSlope

/-! ## Derivatives -/

theorem Expr.Smooth.plain {e : Expr ℚ} (h : e.Smooth env setting host partials) : e.Plain := by
  induction h with
  | const value => exact .const value
  | var w => exact .var w
  | unary op _ ih => exact .unary op ih
  | binary _ _ _ ihl ihr => exact .binary _ ihl ihr
  | division _ _ _ _ _ ihl ihr => exact .binary _ ihl ihr
  | power _ _ ih => exact .binary .pow ih (.const _)
  | cond _ _ _ ihc iht ihf => exact .cond ihc iht ihf
  | call _ _ _ _ _ _ _ ih => exact .call _ ih

/-- Every rule in its place. -/
theorem Expr.exists_hasSlope (hfudge : env.tolerances.fudge = 0) (hexact : env.Exact host)
    (v : Variable) {e : Expr ℚ} (hvalid : e.Valid env)
    (h : e.Smooth env setting host partials) :
    ∃ d z, HasSlope env setting host partials v e d z := by
  induction h with
  | const value => exact ⟨zero, .fixed value, .const value⟩
  | var w =>
    cases hvalid with
    | var hbound => exact HasSlope.var hbound
  | unary op _ ih =>
    cases hvalid with
    | unary _ hvalid =>
      obtain ⟨d, z, hd⟩ := ih hvalid
      cases op with
      | plus => exact ⟨_, _, hd.plus⟩
      | minus => exact ⟨_, _, hd.minus⟩
      | not => exact ⟨_, _, hd.not⟩
  | @binary op _ _ hop _ _ ihl ihr =>
    cases hvalid with
    | binary _ hl hr =>
      obtain ⟨da, x, hda⟩ := ihl hl
      obtain ⟨db, y, hdb⟩ := ihr hr
      cases op with
      | add => exact ⟨_, _, hda.add hdb⟩
      | sub => exact ⟨_, _, hda.sub hdb⟩
      | mul => exact ⟨_, _, hda.mul hdb⟩
      | div => exact absurd rfl hop.1
      | mod => exact absurd rfl hop.2.1
      | pow => exact absurd rfl hop.2.2
      | _ => exact ⟨zero, HasSlope.logical rfl hda hdb⟩
  | division hop _ _ hy hne ihl ihr =>
    cases hvalid with
    | binary _ hl hr =>
      obtain ⟨da, x, hda⟩ := ihl hl
      obtain ⟨db, y, hdb⟩ := ihr hr
      have hne : y.value ≠ 0 := by rwa [hdb.value.unique hy]
      rcases hop with rfl | rfl
      · exact ⟨_, _, hda.div hdb hfudge hne⟩
      · exact ⟨_, _, hda.mod hdb hfudge hexact hne⟩
  | power n _ ih =>
    cases hvalid with
    | binary _ hl _ =>
      obtain ⟨da, x, hda⟩ := ih hl
      exact ⟨_, _, hda.power hexact n⟩
  | cond _ _ _ ihc iht ihf =>
    cases hvalid with
    | cond hc ht hf =>
      obtain ⟨dc, z, hdc⟩ := ihc hc
      obtain ⟨da, x, hda⟩ := iht ht
      obtain ⟨db, y, hdb⟩ := ihf hf
      exact ⟨_, _, hdc.cond hda hdb⟩
  | call _ hd hrule hvalues hx hlength hpartials ih =>
    cases hvalid with
    | call _ hvalid =>
      obtain ⟨ds, zs, heach⟩ := HasSlope.exists_each fun e he => ih e he (hvalid e he)
      exact HasSlope.call heach hd hrule hvalues hx hlength hpartials

/--
**Differentiation is right in exact arithmetic.** At a point without a zero denominator the
derivative with respect to any variable exists. Over dual numbers in which the variable changes at
the rate one, the expression yields its value and a slope, and that slope is what the derivative
yields.
-/
theorem Expr.derive_exact (hfudge : env.tolerances.fudge = 0) (hexact : env.Exact host)
    {e : Expr ℚ} (hvalid : e.validate env = .ok ()) (h : e.Smooth env setting host partials)
    (v : Variable) :
    ∃ d z, derive env.functions env.bindings.comparison v e = .ok d ∧
      Yields (env.dual v partials) setting.seeded host e z ∧
      Yields env setting host e z.value ∧ Yields env setting host d z.slope := by
  obtain ⟨d, z, hd⟩ :=
    exists_hasSlope hfudge hexact v ((validate_eq_ok_iff h.plain).mp hvalid) h
  exact ⟨d, z, hd.derive, hd.dual, hd.value, hd.slope⟩

/-! ## The library over exact numbers -/

/-- The library and one variable, without a fudge. -/
def Environment.rational : Environment ℚ ℚ Unit :=
  { Environment.ofBindings ((Bindings.empty .caseSensitive).bind .sample 0) with
    tolerances := ⟨0, 0, 0⟩ }

theorem Environment.rational_exact : Environment.rational.Exact () := by
  rintro f (rfl | rfl | rfl) <;>
    exact ⟨_, FunctionTable.library_resolve_name rfl, fun x => rfl⟩

/-- The slope of `(x ^ 3 % 5) / x + abs(x - 7)` at two. -/
theorem Expr.derive_exact_rational :
    let x : Expr ℚ := .var .sample
    let e : Expr ℚ := .binary .add
      (.binary .div (.binary .mod (.binary .pow x (.const 3)) (.const 5)) x)
      (.call "abs" [.binary .sub x (.const 7)])
    let partials := fun (_ : Native) (xs : List ℚ) => xs.map Literal.sign
    ∃ d z, derive .library .caseSensitive .sample e = .ok d ∧
      Yields (Environment.rational.dual .sample partials) (Setting.seeded fun _ => 2) () e z ∧
      Yields .rational (fun _ => 2) () e z.value ∧ Yields .rational (fun _ => 2) () d z.slope := by
  intro x e partials
  have hbound : Environment.rational.bindings.contains .sample = true := by decide
  have habs : Environment.rational.functions.resolve "abs" 1 = .ok (LibraryFunction.abs.definition) :=
    FunctionTable.library_resolve_name (f := .abs) rfl
  have hx : Yields .rational (fun _ => 2) () x 2 := yields_var rfl
  have hargument : Yields .rational (fun _ => 2) () (.binary .sub x (.const 7)) (2 - 7) :=
    hx.binary (yields_const 7) rfl
  have hvalid : e.Valid .rational := by
    refine .binary rfl (.binary rfl (.binary rfl (.binary rfl (.var hbound) (.const 3)) (.const 5))
      (.var hbound)) (.call ⟨_, habs⟩ (List.forall_mem_singleton.mpr ?_))
    exact .binary rfl (.var hbound) (.const 7)
  have hsmooth : e.Smooth .rational (fun _ => 2) () partials := by
    have hpower : (Expr.binary .pow x (.const 3)).Smooth .rational (fun _ => 2) () partials :=
      .power 3 (.var _)
    refine .binary (by decide) ?_ ?_
    · exact .division (.inl rfl) (.division (.inr rfl) hpower (.const 5) (yields_const 5)
        (by decide)) (.var _) hx (by decide)
    · refine .call (List.forall_mem_singleton.mpr (.binary (by decide) (.var _) (.const 7))) habs rfl
        (.cons hargument .nil) rfl rfl ?_
      exact .cons (hargument.sgn Environment.rational_exact) .nil
  exact derive_exact rfl Environment.rational_exact ((validate_eq_ok_iff hvalid.plain).mpr hvalid)
    hsmooth .sample

end CircuitExpr
