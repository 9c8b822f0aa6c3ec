import Mathlib
import CircuitExpr.Proofs.Evaluation.Outcome

/-!
# Expressions that yield a value

At a given state of the host an expression yields a value if its evaluation succeeds with it and
leaves the host as it is. What an operator yields follows from what its operands yield.
-/

namespace CircuitExpr.Expr

open List (Forall₂)
open Run

variable {K D σ : Type} [Literal K] [Scalar D K] {env : Environment K D σ} {setting : Setting D}
  {host : σ}

/-- The expression evaluates to the value, and the host stays as it is. -/
def Yields (env : Environment K D σ) (setting : Setting D) (host : σ) (e : Expr K) (x : D) : Prop :=
  (e.evaluate env setting).outcome host = (.ok x, host)

/-- There is one value at most. -/
theorem Yields.unique {e : Expr K} {x y : D} (h : Yields env setting host e x)
    (h' : Yields env setting host e y) : x = y := by
  unfold Yields at h h'
  rw [h] at h'
  cases h'
  rfl

theorem yields_const (value : K) : Yields env setting host (.const value) (Scalar.ofReal value) := by
  unfold Yields
  rw [evaluate, outcome_pure]

theorem Yields.ofReal_eq {value : K} {x : D} (h : Yields env setting host (.const value) x) :
    Scalar.ofReal value = x :=
  (yields_const value).unique h

theorem yields_var {v : Variable} {source : SourceId} (h : env.bindings.get? v = some source) :
    Yields env setting host (.var v) (setting source) := by
  unfold Yields
  rw [evaluate, h, outcome_pure]

theorem Yields.unary {e : Expr K} {x : D} (h : Yields env setting host e x) (op : UnaryOp) :
    Yields env setting host (.unary op e) (op.apply x) := by
  unfold Yields at h ⊢
  rw [evaluate, outcome_bind_ok h, outcome_pure]

theorem Yields.binary {op : BinaryOp} {left right : Expr K} {x y z : D}
    (hleft : Yields env setting host left x) (hright : Yields env setting host right y)
    (hz : op.apply env.tolerances x y = .ok z) :
    Yields env setting host (.binary op left right) z := by
  unfold Yields at hleft hright ⊢
  rw [evaluate, outcome_bind_ok hleft, outcome_bind_ok hright, outcome_ofExcept, hz]

/-- Only the chosen value is asked for. -/
theorem Yields.cond {condition whenTrue whenFalse : Expr K} {x y : D}
    (hcondition : Yields env setting host condition x)
    (hchosen : Yields env setting host (if Scalar.isTrue x then whenTrue else whenFalse) y) :
    Yields env setting host (.cond condition whenTrue whenFalse) y := by
  unfold Yields at hcondition hchosen ⊢
  rw [evaluate, outcome_bind_ok hcondition]
  split at hchosen
  · next htrue => rwa [if_pos htrue]
  · next hfalse => rwa [if_neg hfalse]

theorem yieldsEach {es : List (Expr K)} {xs : List D}
    (h : Forall₂ (Yields env setting host) es xs) :
    (evaluateEach env setting es).outcome host = (.ok xs, host) := by
  induction h with
  | nil => rw [evaluateEach, outcome_pure]
  | cons h _ ih => rw [evaluateEach, outcome_bind_ok h, outcome_bind_ok ih, outcome_pure]

theorem yields_call {name : String} {arguments : List (Expr K)} {values : List D} {x : D}
    {d : FunctionDefinition K} (hd : env.functions.resolve name arguments.length = .ok d)
    (harguments : Forall₂ (Yields env setting host) arguments values)
    (hx : (env.natives d.native values).run host = (x, host)) :
    Yields env setting host (.call name arguments) x := by
  unfold Yields
  rw [evaluate_call_of_ok hd, outcome_bind_ok (yieldsEach harguments), outcome_ofCall, hx]

end CircuitExpr.Expr
