import Mathlib
import CircuitExpr.Proofs.Behavior.Verdicts
import CircuitExpr.Proofs.Program.Compile

/-!
# Every backend takes the valid expressions

The checks in front of a backend are the only place where an expression is refused. What is
checked is the expression as it is given, and what is then assembled or lowered is the optimized
one; since that is valid too, neither the assembler nor the lowering meets anything it has no
code for.

## Main statements

* `exists_emit` — assembling a valid expression succeeds
* `lower_succeeds` — lowering a valid expression to native code succeeds
* `Evaluator.build_of_valid`, `Evaluator.build_of_invalid` — any backend
-/

namespace CircuitExpr

/-! ## The assembler -/

section Assembler

variable {K D σ : Type} [Literal K] [Scalar D K] {env : Environment K D σ}

namespace Expr

/-- **Assembling a valid expression succeeds**, on whatever code there is already. -/
theorem exists_emit {e : Expr K} (h : e.Valid env) (a : Assembly D) :
    ∃ a', emit env e a = .ok a' := by
  have hvalid : e.validate env.alone = .ok () := (validate_eq_ok_iff h.plain).mpr h
  have hverdict := verdict_emit env e a
  rw [hvalid] at hverdict
  exact (map_eq_ok hverdict).imp fun _ ha => ha.1

end Expr

theorem Program.exists_compile_of_valid {e : Expr K} (h : e.Valid env) :
    ∃ p, Program.compile env e = .ok p :=
  exists_compile ((Expr.validate_eq_ok_iff h.plain).mpr h) (Expr.exists_emit h.optimize .empty)

end Assembler

/-! ## Native code -/

namespace Expr

open Lowering

variable {K σ : Type} [RealFunctions K] {env : Environment K K σ}

/-- **Lowering a valid expression to native code succeeds.** -/
theorem lower_succeeds {e : Expr K} (h : e.Valid env) : Succeeds (e.lower env) := by
  intro d
  have hvalid : e.validate env.alone = .ok () := (validate_eq_ok_iff h.plain).mpr h
  have hverdict := verdict_lower env e d
  rw [hvalid] at hverdict
  exact (map_eq_ok hverdict).imp fun _ hr => hr.1

end Expr

theorem NativeCode.exists_compile_of_valid {K σ : Type} [RealFunctions K] {env : Environment K K σ}
    {e : Expr K} (h : e.Valid env) : ∃ c, NativeCode.compile env e = .ok c := by
  obtain ⟨⟨x, d⟩, hd⟩ := Expr.lower_succeeds (e := e.optimize K env.tolerances) h.optimize .empty
  refine ⟨⟨(d.close (.ret x)).closed, (d.close (.ret x)).captures⟩, ?_⟩
  simp only [compile, lower, bind_eq_ok, pure, Except.pure, Except.ok.injEq]
  exact ⟨(), (Expr.validate_eq_ok_iff h.plain).mpr h, (x, d), hd, rfl⟩

/-! ## All backends -/

/-- The native code of a domain, if it has any, takes the same expressions as the checks. -/
def NativeChecked (D : Type) {K : Type} [Literal K] [Domain D K] : Prop :=
  ∀ {σ : Type} (env : Environment K D σ) (e : Expr K) (made : Except ExpressionError (Evaluator D σ)),
    Domain.native? env e = some made →
      (e.Valid env → ∃ evaluator, made = .ok evaluator) ∧
        ∀ x, e.validate env = .error x → made = .error x

theorem nativeChecked_real {K : Type} [RealFunctions K] : NativeChecked K := by
  intro σ env e made hmade
  obtain rfl := Option.some.inj hmade
  constructor
  · intro h
    obtain ⟨c, hc⟩ := NativeCode.exists_compile_of_valid h
    exact ⟨⟨.jit, c.blank, c.executeOn env.natives⟩, by rw [Evaluator.native, hc]; rfl⟩
  · intro x hx
    rw [Evaluator.native, NativeCode.compile, hx]
    rfl

theorem nativeChecked_complex {K : Type} [RealFunctions K] : NativeChecked (Complex K) :=
  fun _ _ _ h => nomatch h

namespace Evaluator

section Any

variable {K D σ : Type} [Literal K] [Domain D K] {env : Environment K D σ} {e : Expr K}

theorem program_of_invalid {x : ExpressionError} (h : e.validate env = .error x) :
    program env e = .error x := by
  rw [program, Program.compile, h]
  rfl

/-- **A valid expression is made ready by every backend.** -/
theorem build_of_valid (hD : NativeChecked D) (h : e.Valid env) (backend : Backend) :
    ∃ evaluator, build env e backend = .ok evaluator := by
  obtain ⟨p, hp⟩ := Program.exists_compile_of_valid h
  have hprogram : program env e = .ok ⟨.program, [], p.runOn⟩ := by rw [program, hp]; rfl
  cases backend with
  | interpreted =>
    have hvalid := (Expr.validate_eq_ok_iff h.plain).mpr h
    simp only [build, interpreted, bind_eq_ok, pure, Except.pure, Except.ok.injEq]
    exact ⟨_, (), hvalid, rfl⟩
  | program => exact ⟨_, hprogram⟩
  | jit =>
    unfold build
    cases hmade : Domain.native? env e with
    | some made => exact (hD env e made hmade).1 h
    | none => exact ⟨_, hprogram⟩

/-- **An expression that fails the checks is refused by every backend**, for the same cause. -/
theorem build_of_invalid (hD : NativeChecked D) {x : ExpressionError}
    (h : e.validate env = .error x) (backend : Backend) : build env e backend = .error x := by
  cases backend with
  | interpreted =>
    rw [build, interpreted, h]
    rfl
  | program => exact program_of_invalid h
  | jit =>
    unfold build
    cases hmade : Domain.native? env e with
    | some made => exact (hD env e made hmade).2 x h
    | none => exact program_of_invalid h

end Any

end Evaluator

end CircuitExpr
