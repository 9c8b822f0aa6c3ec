import Mathlib
import CircuitExpr.Proofs.Numeric.Domains
import CircuitExpr.Proofs.Program.Simulation
import CircuitExpr.Proofs.Simplify.Neutral

/-!
# Compiled programs agree with evaluation

Compiling optimizes an expression before it is assembled. A run of the program is compared with
the evaluation of the expression as it was given: `Program.Agrees` says that both succeed with
similar values and call the same functions with similar arguments.

## Main statements

* `compiled_agrees` — in any domain, under conditions on the expression
* `compiled_agrees_real` — in the real domain, for all expressions
-/

namespace CircuitExpr

open List (Forall₂)

namespace Expr

open Run

variable {K D σ : Type} [Scalar D K] {env : Environment K D σ} {a : Assembly D}

theorem PlacedEach.plain {es : List (Expr K)}
    (h : ∀ e ∈ es, ∀ {start depth stop}, Placed env a e start depth stop → Plain e) :
    ∀ {start depth stop}, PlacedEach env a es start depth stop → ∀ e ∈ es, Plain e := by
  induction es with
  | nil =>
    intro start depth stop _ e hmem
    exact absurd hmem List.not_mem_nil
  | cons first rest ih =>
    rintro start depth stop ⟨mid, hfirst, hrest⟩ e hmem
    rcases List.mem_cons.mp hmem with rfl | hmem
    · exact h e (by simp) hfirst
    · exact ih (fun x hx => h x (by simp [hx])) hrest e hmem

/-- There is no code for what only a host can evaluate. -/
theorem Placed.plain {e : Expr K} :
    ∀ {start depth stop}, Placed env a e start depth stop → Plain e := by
  induction e using Expr.induction with
  | const value => exact fun _ => .const value
  | var v => exact fun _ => .var v
  | unary op operand ih =>
    intro start depth stop h
    cases op with
    | plus => exact .unary _ (ih h)
    | minus | not =>
      obtain ⟨mid, hoperand, -⟩ := h
      exact .unary _ (ih hoperand)
  | binary op left right ihl ihr =>
    rintro start depth stop ⟨-, mid, last, hleft, hright, -⟩
    exact .binary op (ihl hleft) (ihr hright)
  | cond condition whenTrue whenFalse ihc iht ihf =>
    rintro start depth stop ⟨branch, exit, hcondition, -, htrue, -, hfalse⟩
    exact .cond (ihc hcondition) (iht htrue) (ihf hfalse)
  | call name arguments ih =>
    rintro start depth stop ⟨d, slot, last, -, -, harguments, -⟩
    exact .call name (harguments.plain ih)
  | ext name arguments => exact fun h => h.elim

theorem evaluateEach_singleton [Literal K] {setting : Setting D} {e : Expr K} {host host' : σ}
    {values : List D} (h : (evaluateEach env setting [e]).outcome host = (.ok values, host')) :
    ∃ value, values = [value] ∧ (evaluate env setting e).outcome host = (.ok value, host') := by
  rw [evaluateEach, outcome_bind_eq_ok] at h
  obtain ⟨value, host₁, hvalue, h⟩ := h
  rw [evaluateEach, pure_bind, outcome_pure] at h
  cases h
  exact ⟨value, rfl, hvalue⟩

end Expr

namespace Program

open Run Scalar

variable {K D σ : Type} [Literal K] [Scalar D K] {env : Environment K D σ} {e : Expr K}
  {p : Program K D σ}

theorem compile_eq_ok :
    compile env e = .ok p ↔ e.validate env = .ok () ∧
      ∃ a, Expr.emitEach env [e.optimize D env.tolerances] .empty = .ok a ∧
        ofAssembly env a = p := by
  simp only [compile, assemble, bind_eq_ok, pure, Except.pure, Except.ok.injEq]
  exact ⟨fun ⟨_, hvalid, h⟩ => ⟨hvalid, h⟩, fun ⟨hvalid, h⟩ => ⟨(), hvalid, h⟩⟩

/-- Compiling succeeds if the checks and the assembler do. -/
theorem exists_compile (hvalid : e.validate env = .ok ())
    (h : ∃ a, (e.optimize D env.tolerances).emit env .empty = .ok a) :
    ∃ p, compile env e = .ok p := by
  obtain ⟨a, ha⟩ := h
  have heach : Expr.emitEach env [e.optimize D env.tolerances] .empty = .ok a := by
    rw [Expr.emitEach, ha]
    rfl
  exact ⟨_, compile_eq_ok.mpr ⟨hvalid, a, heach, rfl⟩⟩

/-- Only plain expressions can be assembled. -/
theorem compile_plain (hp : compile env e = .ok p) :
    Expr.Plain (e.optimize D env.tolerances) := by
  obtain ⟨-, a, ha, -⟩ := compile_eq_ok.mp hp
  exact (Expr.emitEach_placed ha).placed.plain (fun _ _ => Expr.Placed.plain) _ (by simp)

/-- A run of what a single expression is assembled to. -/
theorem runOn_eq_evaluate (hcompare : ComparesOrdered D) {a : Assembly D}
    (h : Expr.emitEach env [e] .empty = .ok a) (setting : Setting D) (leftover : List D)
    (host : σ) :
    ∃ value host', (e.evaluate env setting).outcome host = (.ok value, host') ∧
      ((ofAssembly env a).runOn setting leftover).run host = ((value, []), host') := by
  obtain ⟨values, host', hvalues, -, hrun⟩ :=
    runOn_eq_evaluateEach hcompare h setting leftover host
  obtain ⟨value, rfl, hvalue⟩ := Expr.evaluateEach_singleton hvalues
  exact ⟨value, host', hvalue, hrun⟩

/-- A run of a compiled program evaluates the optimized expression. -/
theorem compiled_run (hcompare : ComparesOrdered D) (hp : compile env e = .ok p)
    (setting : Setting D) (leftover : List D) (host : σ) :
    ∃ value host',
      ((e.optimize D env.tolerances).evaluate env setting).outcome host = (.ok value, host') ∧
      (p.runOn setting leftover).run host = ((value, []), host') := by
  obtain ⟨-, a, ha, rfl⟩ := compile_eq_ok.mp hp
  exact runOn_eq_evaluate hcompare ha setting leftover host

/--
A run of the program and an evaluation of the expression both succeed, with similar values and
related states of the host, and they make similar calls.
-/
def Agrees (V : D → D → Prop) (S : σ → σ → Prop) (env : Environment K D σ) (setting : Setting D)
    (e : Expr K) (p : Program K D σ) (host : σ) : Prop :=
  ∀ leftover, ∃ value result rest s t calls calls',
    (e.evaluate env setting).outcome host = (.ok value, s) ∧
    (p.runOn setting leftover).run host = ((result, rest), t) ∧
    V value result ∧ S s t ∧
    (e.evaluate env.recorded setting).outcome (host, []) = (.ok value, (s, calls)) ∧
    (p.recorded.runOn setting leftover).run (host, []) = ((result, rest), (t, calls')) ∧
    Forall₂ (Call.Similar V) calls calls'

/-- What an expression is compiled to agrees with it, if optimizing respects similar numbers. -/
theorem compiled_agrees {V : D → D → Prop} {S : σ → σ → Prop} (hcompare : ComparesOrdered D)
    (hV : Similarity V) (hS : Equivalence S) (hwritable : Writable V) (hzero : NeutralZero V)
    (hp : compile env e = .ok p) (he : e.Respectful env V S) {setting : Setting D}
    (hones : (e.foldConstants D env.tolerances).OnesFit env setting V) (host : σ) :
    Agrees V S env setting e p host := by
  intro leftover
  have hplain := compile_plain hp
  obtain ⟨-, a, ha, rfl⟩ := compile_eq_ok.mp hp
  have hrecorded : Expr.emitEach env.recorded [e.optimize D env.tolerances] .empty = .ok a :=
    (Expr.emitEach_recorded _ _).trans ha
  obtain ⟨result, ⟨t, calls'⟩, hresult, hrun⟩ :=
    runOn_eq_evaluate hcompare hrecorded setting leftover (host, [])
  obtain ⟨result', t', hresult', hrun'⟩ := runOn_eq_evaluate hcompare ha setting leftover host
  -- the run without calls noted down is the same run
  have hsame := (Expr.evaluate_of_recorded hresult).symm.trans hresult'
  cases hsame
  obtain ⟨hagree, hstate⟩ := Expr.optimize_related_recorded hV hS hwritable hzero he hplain hones
    (host, []) (host, []) ((similarRecords_equivalence hV.equivalence hS).refl _)
  obtain ⟨r, s, calls, hvalue⟩ : ∃ r s calls,
      (e.evaluate env.recorded setting).outcome (host, []) = (r, (s, calls)) := ⟨_, _, _, rfl⟩
  rw [hvalue, hresult] at hagree hstate
  cases hagree with
  | ok hsimilar =>
    exact ⟨_, result, [], s, t, calls, calls', Expr.evaluate_of_recorded hvalue, hrun', hsimilar,
      hstate.1, hvalue, hrun, hstate.2⟩

/-! ## The real domain -/

section Real

variable {K σ : Type} [RealFunctions K] {env : Environment K K σ} {e : Expr K} {p : Program K K σ}

/--
**What an expression is compiled to in the real domain agrees with it**, up to any relation of
similar numbers that operators and registered functions respect and that takes a sum with zero
and a product with one for their other operand.
-/
theorem compiled_agrees_real {V : K → K → Prop} {S : σ → σ → Prop} (hV : Similarity V)
    (hpower : PowerRespects V) (hzero : NeutralZero V) (hone : NeutralOne V) (hS : Equivalence S)
    (hfunctions : ∀ name count d, env.functions.resolve name count = .ok d →
      Native.Respects V S count (env.natives d.native) (env.natives d.native))
    (hp : compile env e = .ok p) (setting : Setting K) (host : σ) :
    Agrees V S env setting e p host := by
  have hwritable : Writable V := fun x _ => hV.refl x
  exact compiled_agrees comparesOrdered_real hV hS hwritable hzero hp
    (Expr.respectful_of_forall (hV.binary_of_power hpower env.tolerances) hfunctions e)
    (Expr.onesFit_of_neutralOne hone _) host

end Real

theorem metered_respects (name : String) (count : Nat) (d : FunctionDefinition Float)
    (hd : Environment.metered.functions.resolve name count = .ok d) :
    Native.Respects Binary64.Alike Eq count (Environment.metered.natives d.native)
      (Environment.metered.natives d.native) := by
  rw [Environment.metered_resolve hd]
  rintro xs ys - hxs s _ rfl
  rw [Environment.metered_call, Environment.metered_call]
  refine ⟨?_, rfl⟩
  cases hxs with
  | nil => exact .refl _
  | cons h _ => exact h.add (.refl _)

/-- Doubles up to the signs of zeros, on a host that counts. -/
theorem compiled_agrees_real_metered :
    ∃ p, compile .metered (.binary .add (.call "next" [.binary .mul (.var .sample) (.const 1)])
        (.const (-0))) = .ok p ∧
      ∀ setting host, Agrees Binary64.Alike Eq .metered setting
        (.binary .add (.call "next" [.binary .mul (.var .sample) (.const 1)]) (.const (-0))) p
        host := by
  obtain ⟨p, hp⟩ : ∃ p, compile .metered
      (.binary .add (.call "next" [.binary .mul (.var .sample) (.const 1)]) (.const (-0))) =
        .ok p := ⟨_, rfl⟩
  exact ⟨p, hp, compiled_agrees_real alike_similarity alike_powerRespects alike_neutralZero
    alike_neutralOne eq_equivalence metered_respects hp⟩

end Program

end CircuitExpr
