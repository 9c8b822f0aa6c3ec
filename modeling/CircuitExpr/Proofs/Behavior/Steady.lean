import Mathlib
import CircuitExpr.Behavior.Evaluator
import CircuitExpr.Proofs.Behavior.Backends
import CircuitExpr.Proofs.Evaluation.Purity
import CircuitExpr.Proofs.Native.Refinement

/-!
# Evaluators yield current values

An evaluator keeps a buffer from call to call. With pure functions nothing in there shows: a call
yields what belongs to the setting of the moment, and leaves the evaluator ready for the next one.
For the interpreter there is nothing to clear; a program starts with an empty stack, whatever was
left on it; and native code writes all of its inputs anew, as long as there are as many as it has
sources.

## Main statements

* `Evaluator.Steady` — calls yield what belongs to the setting; `Steady.call` is a single call
* `Expr.ReadAs` — a number is read for the value of an expression
* `Evaluator.exists_steady_of_build` — every evaluator that is built is steady, and reads either
  the expression or the optimized expression
-/

namespace CircuitExpr

/-! ## Values of expressions -/

namespace Expr

open Run

section Values

variable {K D σ : Type} [Literal K] [Scalar D K] {env : Environment K D σ} {setting : Setting D}
  {e : Expr K}

/-- **A valid expression has a value.** -/
theorem Valid.exists_evaluate (hcompare : Scalar.ComparesOrdered D) (h : e.Valid env)
    (setting : Setting D) (host : σ) :
    ∃ x host', (evaluate env setting e).outcome host = (.ok x, host') := by
  obtain ⟨a, ha⟩ := exists_emit h .empty
  have heach : emitEach env [e] .empty = .ok a := by
    rw [emitEach, ha]
    rfl
  obtain ⟨x, host', hx, -⟩ := Program.runOn_eq_evaluate hcompare heach setting [] host
  exact ⟨x, host', hx⟩

/-! ### Numbers read for values -/

/--
Whatever the state of the host, the number is the value of the expression, up to `V`. Only where
extension nodes make the evaluation fail there is no value, and the number is undefined.
-/
def ReadAs (env : Environment K D σ) (setting : Setting D) (V : D → D → Prop) (e : Expr K)
    (x : D) : Prop :=
  ∀ host, (∃ y, (evaluate env setting e).outcome host = (.ok y, host) ∧ V y x) ∨
    ¬ e.Plain ∧ x = Scalar.undefined ∧
      ∃ cause, (evaluate env setting e).outcome host = (.error cause, host)

theorem ReadAs.of_plain {V : D → D → Prop} {x : D} (h : e.ReadAs env setting V x)
    (hplain : e.Plain) (host : σ) :
    ∃ y, (evaluate env setting e).outcome host = (.ok y, host) ∧ V y x :=
  (h host).resolve_right fun hx => hx.1 hplain

/-- The number is the value of the optimized expression at each setting. -/
structure ReadOptimized (env : Environment K D σ) (e : Expr K) (x : Setting D → D) : Prop where
  plain : (e.optimize D env.tolerances).Plain
  value : ∀ setting host, (evaluate env setting (e.optimize D env.tolerances)).outcome host =
    (.ok (x setting), host)

/-- If the optimized expression always has a value, pure functions make it one for each setting. -/
theorem exists_readOptimized (hpure : env.PureFunctions)
    (hplain : (e.optimize D env.tolerances).Plain)
    (h : ∀ setting host, ∃ x host',
      (evaluate env setting (e.optimize D env.tolerances)).outcome host = (.ok x, host')) :
    ∃ x, e.ReadOptimized env x := by
  choose x hx using fun setting => exists_value ⟨hpure, .inl hplain⟩ setting
  refine ⟨fun setting => (x setting).getD Scalar.undefined, hplain, fun setting host => ?_⟩
  obtain ⟨y, host', hy⟩ := h setting host
  obtain ⟨hvalue, hhost⟩ := hx setting host
  rw [hy] at hvalue hhost ⊢
  obtain rfl : host' = host := hhost
  rw [← hvalue]
  rfl

/-- What an evaluator of a backend is read for: the expression, or the optimized expression. -/
def ReadBy (env : Environment K D σ) (e : Expr K) (x : Setting D → D) : Backend → Prop
  | .interpreted => ∀ setting, e.ReadAs env setting Eq (x setting)
  | .program | .jit => e.ReadOptimized env x

end Values

end Expr

/-! ## Numbers that count as the same -/

section Admits

open Scalar CircuitExpr.Expr

/--
An equivalence that all operations and all registered functions respect, and under which neutral
elements make no difference.
-/
structure Environment.Admits {K D σ : Type} [Literal K] [Scalar D K] (env : Environment K D σ)
    (V : D → D → Prop) : Prop where
  similarity : Similarity V
  power : PowerRespects V
  zero : NeutralZero V
  one : NeutralOne V
  functions : ∀ name count d, env.functions.resolve name count = .ok d →
    Native.Respects V Eq count (env.natives d.native) (env.natives d.native)

variable {K σ : Type} [RealFunctions K] {env : Environment K K σ} {e : Expr K}
  {V : K → K → Prop}

/-- In the real domain the value of the optimized expression is read for that of the expression. -/
theorem Expr.ReadOptimized.readAs (hV : env.Admits V) {x : Setting K → K}
    (h : e.ReadOptimized env x) (setting : Setting K) : e.ReadAs env setting V (x setting) := by
  intro host
  have hrespectful : e.Respectful env V Eq :=
    respectful_of_forall (hV.similarity.binary_of_power hV.power env.tolerances) hV.functions e
  have hones : (e.foldConstants K env.tolerances).OnesFit env setting V :=
    onesFit_of_neutralOne hV.one _
  obtain ⟨hagree, hhost⟩ := optimize_related hV.similarity eq_equivalence
    (fun x _ => hV.similarity.refl x) hV.zero hrespectful h.plain hones host host rfl
  rcases hvalue : (evaluate env setting e).outcome host with ⟨result, host'⟩
  rw [h.value, hvalue] at hagree hhost
  obtain rfl : host' = host := hhost
  cases hagree with
  | ok hy => exact .inl ⟨_, rfl, hy⟩

theorem Expr.ReadBy.readAs (hV : env.Admits V) {x : Setting K → K} {backend : Backend}
    (h : e.ReadBy env x backend) (setting : Setting K) : e.ReadAs env setting V (x setting) := by
  cases backend with
  | interpreted =>
    intro host
    refine (h setting host).imp ?_ id
    rintro ⟨y, hy, rfl⟩
    exact ⟨_, hy, hV.similarity.refl _⟩
  | program => exact ReadOptimized.readAs hV h setting
  | jit => exact ReadOptimized.readAs hV h setting

end Admits

/-! ## Evaluators -/

namespace Evaluator

open Run

section Any

variable {K D σ : Type}

/--
From the buffer as it is, and from whatever a call leaves in it, a call yields the number that
belongs to the setting. The host stays as it is.
-/
def Steady (d : Evaluator D σ) (x : Setting D → D) : Prop :=
  ∃ Kept : List D → Prop, Kept d.buffer ∧ ∀ buffer, Kept buffer → ∀ setting host, ∃ left,
    Kept left ∧ (d.compute setting buffer).run host = ((x setting, left), host)

/-- **A call of a steady evaluator** leaves a steady evaluator. -/
theorem Steady.call {d : Evaluator D σ} {x : Setting D → D} (h : d.Steady x)
    (setting : Setting D) (host : σ) :
    ∃ d' : Evaluator D σ, d'.Steady x ∧ (d.call setting).run host = ((x setting, d'), host) := by
  obtain ⟨Kept, hbuffer, hcompute⟩ := h
  obtain ⟨left, hleft, hrun⟩ := hcompute d.buffer hbuffer setting host
  exact ⟨{ d with buffer := left }, ⟨Kept, hleft, hcompute⟩, run_bind_of_run hrun⟩

variable [Literal K] [Scalar D K] {env : Environment K D σ} {e : Expr K} {d : Evaluator D σ}

/-- What is made for the interpreter evaluates the expression, and leaves any buffer as it is. -/
theorem interpreted_compute (h : interpreted env e = .ok d) (setting : Setting D)
    (buffer : List D) (host : σ) :
    let outcome := (e.evaluate env setting).outcome host
    (d.compute setting buffer).run host =
      ((outcome.1.toOption.getD Scalar.undefined, buffer), outcome.2) := by
  obtain ⟨-, -, hd⟩ := bind_eq_ok.mp h
  obtain rfl := Except.ok.inj hd
  intro outcome
  have hrun : (e.evaluate env setting).run.run host = outcome := rfl
  rw [StateT.run_bind, hrun]
  rcases outcome with ⟨_ | y, host'⟩ <;> rfl

/-- The interpreter keeps nothing. -/
theorem exists_steady_interpreted (hcompare : Scalar.ComparesOrdered D)
    (hpure : env.PureFor e) (h : interpreted env e = .ok d) :
    ∃ x, d.Steady x ∧ ∀ setting, e.ReadAs env setting Eq (x setting) := by
  choose x hx using Expr.exists_value hpure
  refine ⟨fun setting => (x setting).getD Scalar.undefined,
    ⟨fun _ => True, trivial, fun buffer _ setting host => ⟨buffer, trivial, ?_⟩⟩,
    fun setting host => ?_⟩
  · rw [interpreted_compute h, (hx setting host).1, (hx setting host).2]
  · obtain ⟨hvalue, hhost⟩ := hx setting host
    dsimp only
    rw [← hvalue]
    rcases hrun : (e.evaluate env setting).outcome host with ⟨cause | y, host'⟩
    · rw [hrun] at hhost
      obtain rfl : host' = host := hhost
      refine .inr ⟨fun hplain => ?_, rfl, cause, rfl⟩
      -- a plain expression that passes the checks does not fail
      obtain ⟨_, hvalid, -⟩ := bind_eq_ok.mp h
      obtain ⟨y, _, hy⟩ := ((Expr.validate_eq_ok_iff hplain).mp hvalid).exists_evaluate hcompare
        setting host'
      exact nomatch hrun.symm.trans hy
    · rw [hrun] at hhost
      obtain rfl : host' = host := hhost
      exact .inl ⟨y, rfl, rfl⟩

/-- A program starts with an empty stack, whatever was left on it. -/
theorem exists_steady_program (hcompare : Scalar.ComparesOrdered D) (hpure : env.PureFunctions)
    (h : program env e = .ok d) : ∃ x, d.Steady x ∧ e.ReadOptimized env x := by
  obtain ⟨p, hp, hd⟩ := bind_eq_ok.mp h
  obtain rfl := Except.ok.inj hd
  obtain ⟨x, hx⟩ := Expr.exists_readOptimized hpure (Program.compile_plain hp)
    fun setting host =>
      let ⟨y, host', hy, _⟩ := Program.compiled_run hcompare hp setting [] host
      ⟨y, host', hy⟩
  refine ⟨x, ⟨fun _ => True, trivial, fun leftover _ setting host => ⟨[], trivial, ?_⟩⟩, hx⟩
  obtain ⟨y, host', hy, hrun⟩ := Program.compiled_run hcompare hp setting leftover host
  cases hy.symm.trans (hx.value setting host)
  exact hrun

end Any

/-- Native code writes all of its inputs anew. -/
theorem exists_steady_native {K σ : Type} [RealFunctions K] {env : Environment K K σ} {e : Expr K}
    {d : Evaluator K σ} (hone : (1 : K) - 1 = 0) (hzero : (1 : K) - 0 = 1)
    (hpure : env.PureFunctions) (h : native env e = .ok d) :
    ∃ x, d.Steady x ∧ e.ReadOptimized env x := by
  obtain ⟨c, hc, hd⟩ := bind_eq_ok.mp h
  obtain rfl := Except.ok.inj hd
  have hverdict := (NativeCode.verdict_compile env e).trans (Program.verdict_compile env e).symm
  rw [hc] at hverdict
  obtain ⟨p, hp, -⟩ := map_eq_ok hverdict.symm
  obtain ⟨x, hx⟩ := Expr.exists_readOptimized hpure (Program.compile_plain hp)
    fun setting host =>
      let ⟨y, host', hy, _⟩ := NativeCode.compiled_execute hone hzero hc setting host
      ⟨y, host', hy⟩
  -- of the buffer only the length matters, and a call leaves it
  refine ⟨x, ⟨fun inputs => inputs.length = c.captures.sources.length, List.length_replicate ..,
    fun inputs hinputs setting host =>
      ⟨c.captures.sources.map setting, List.length_map .., ?_⟩⟩, hx⟩
  obtain ⟨y, host', hy, hrun⟩ := NativeCode.compiled_execute hone hzero hc setting host
  cases hy.symm.trans (hx.value setting host)
  rw [NativeCode.execute_eq] at hrun
  show (c.executeOn env.natives setting inputs).run host = _
  rw [NativeCode.executeOn_eq env.natives c setting hinputs]
  exact run_bind_of_run hrun

/-! ### All backends -/

/-- Native code of the domain, if it has any, is steady. -/
def NativeSteady (D : Type) {K : Type} [Literal K] [Domain D K] : Prop :=
  ∀ {σ : Type} (env : Environment K D σ) (e : Expr K) (d : Evaluator D σ),
    env.PureFunctions → Domain.native? env e = some (.ok d) →
      ∃ x, d.Steady x ∧ e.ReadOptimized env x

theorem nativeSteady_real {K : Type} [RealFunctions K] (hone : (1 : K) - 1 = 0)
    (hzero : (1 : K) - 0 = 1) : NativeSteady K :=
  fun _ _ _ hpure hd => exists_steady_native hone hzero hpure (Option.some.inj hd)

theorem nativeSteady_complex {K : Type} [RealFunctions K] : NativeSteady (Complex K) :=
  fun _ _ _ _ hd => nomatch hd

/-- **Every evaluator that is built is steady.** -/
theorem exists_steady_of_build {K D σ : Type} [Literal K] [Domain D K] {env : Environment K D σ}
    {e : Expr K} {d : Evaluator D σ} {backend : Backend} (hD : NativeSteady D)
    (hcompare : Scalar.ComparesOrdered D) (hpure : env.PureFor e)
    (h : build env e backend = .ok d) : ∃ x, d.Steady x ∧ e.ReadBy env x backend := by
  cases backend with
  | interpreted => exact exists_steady_interpreted hcompare hpure h
  | program => exact exists_steady_program hcompare hpure.functions h
  | jit =>
    unfold build at h
    cases hmade : Domain.native? env e with
    | some made =>
      simp only [hmade] at h
      subst h
      exact hD env e d hpure.functions hmade
    | none =>
      simp only [hmade] at h
      exact exists_steady_program hcompare hpure.functions h

end Evaluator

end CircuitExpr
