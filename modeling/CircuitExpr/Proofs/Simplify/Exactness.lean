import Mathlib
import CircuitExpr.Proofs.Evaluation.Matching
import CircuitExpr.Proofs.Simplify.Fold

/-!
# Constant folding is exact

Where a number that equals its real part is that real part, nothing is lost when a computed value
is written as a constant: a folding step changes nothing about the evaluation of the node that it
is made on. So an expression and its folded form end with the very same value, and they ask the
same of the host. They can differ in one thing alone, in the text by which an extension node is
named that nobody handles: it is the folded node that is named.

The real domain is of this kind. The complex domain is not, for a constant has no sign for the
zero in its imaginary part.

## Main statements

* `evaluate_foldUnary`, `evaluate_foldBinary`, `evaluate_cond_const` — a folding step as an
  equation between evaluations
* `foldConstants_matches` — folding an expression
* `foldConstants_exact` — folding in the real domain, with what is asked of the host
-/

namespace CircuitExpr

/-! ## Kinds of errors -/

/-- What is wrong, without what it is wrong with. -/
inductive ErrorKind where
  | unrecognizedNode
  | unboundVariable
  | unknownFunction
  | arityMismatch
  | undifferentiableFunction
  | unsupportedOperator
deriving DecidableEq

/-- The kind of an error. -/
def ExpressionError.kind : ExpressionError → ErrorKind
  | unrecognizedNode _ => .unrecognizedNode
  | unboundVariable _ => .unboundVariable
  | unknownFunction _ => .unknownFunction
  | arityMismatch _ _ _ => .arityMismatch
  | undifferentiableFunction _ => .undifferentiableFunction
  | unsupportedOperator _ _ => .unsupportedOperator

/-- Errors of one kind. -/
def ExpressionError.SameKind (x y : ExpressionError) : Prop := x.kind = y.kind

theorem ExpressionError.SameKind.refl (x : ExpressionError) : x.SameKind x := rfl

namespace Expr

open Run Scalar

section Exactness

variable {K D σ : Type} [Literal K] [Scalar D K] {env : Environment K D σ} {setting : Setting D}

/-! ## One step -/

/-- A unary operator is computed beforehand as it is in evaluation. -/
theorem evaluate_foldUnary (hwritable : Writable (Eq : D → D → Prop)) (op : UnaryOp)
    (operand : Expr K) :
    evaluate env setting (foldUnary D op operand) = evaluate env setting (.unary op operand) := by
  obtain hkept | ⟨x, rfl, hfolded, hequal⟩ := foldUnary_cases D op operand
  · rw [hkept]
  · rw [hfolded, evaluate_const, ← hwritable _ hequal, evaluate, evaluate_const]
    exact (pure_bind _ _).symm

theorem evaluate_foldBinary (hwritable : Writable (Eq : D → D → Prop)) (op : BinaryOp)
    (left right : Expr K) :
    evaluate env setting (foldBinary D env.tolerances op left right) =
      evaluate env setting (.binary op left right) := by
  obtain hkept | ⟨x, y, value, rfl, rfl, hok, hfolded, hequal⟩ :=
    foldBinary_cases D env.tolerances op left right
  · rw [hkept]
  · rw [hfolded, evaluate_const, ← hwritable _ hequal, evaluate, evaluate_const, evaluate_const,
      pure_bind, pure_bind, hok]
    rfl

/-- A constant condition chooses without being asked. -/
theorem evaluate_cond_const (x : K) (whenTrue whenFalse : Expr K) :
    evaluate env setting (.cond (.const x) whenTrue whenFalse) =
      if isTrue (ofReal x : D) then evaluate env setting whenTrue
      else evaluate env setting whenFalse := by
  rw [evaluate, evaluate_const, pure_bind]

/-! ## Folding an expression -/

/--
**Evaluating an expression matches evaluating its folded form**: the same value or an error of the
same kind, and the same state of the host.
-/
theorem foldConstants_matches (hwritable : Writable (Eq : D → D → Prop))
    (env : Environment K D σ) (setting : Setting D) (e : Expr K) :
    Matches ExpressionError.SameKind Eq (evaluate env setting e)
      (evaluate env setting (e.foldConstants D env.tolerances)) := by
  have hE := ExpressionError.SameKind.refl
  have henv := Environment.Matches.refl hE env
  induction e using Expr.induction with
  | const value =>
    rw [foldConstants]
    exact evaluate_const_matches value
  | var v =>
    rw [foldConstants]
    exact evaluate_var_matches hE henv v
  | unary op operand ih =>
    rw [foldConstants, evaluate_foldUnary hwritable]
    exact evaluate_unary_matches ih
  | binary op left right ihl ihr =>
    rw [foldConstants, evaluate_foldBinary hwritable]
    exact evaluate_binary_matches hE henv ihl ihr
  | cond condition whenTrue whenFalse ihc iht ihf =>
    have hcond := evaluate_cond_matches ihc iht ihf
    rw [foldConstants]
    cases hx : (foldConstants D env.tolerances condition).constant? with
    | none => exact hcond
    | some x =>
      -- what is left is the value that the constant condition chooses
      rw [constant?_eq_some.mp hx, evaluate_cond_const] at hcond
      show Matches _ _ _ (evaluate env setting (if _ then _ else _))
      rwa [apply_ite (evaluate env setting)]
  | call name arguments ih =>
    rw [foldConstants, foldEach_eq_map]
    exact evaluate_call_matches hE henv (List.length_map _).symm (evaluateEach_map_matches ih)
  | ext name arguments ih =>
    rw [foldConstants, foldEach_eq_map]
    exact evaluate_ext_matches henv rfl (evaluateEach_map_matches ih)

end Exactness

/--
**In the real domain constant folding is exact.** The folded expression ends with the very same
number, or both fail for causes of one kind, in the same state of the host. What is asked of the
host on the way is the same, in the same order.
-/
theorem foldConstants_exact {K σ : Type} [RealFunctions K] (env : Environment K K σ)
    (setting : Setting K) (e : Expr K) :
    Matches ExpressionError.SameKind Eq (evaluate env setting e)
        (evaluate env setting (e.foldConstants K env.tolerances)) ∧
      Matches ExpressionError.SameKind Eq (evaluate env.watched setting e)
        (evaluate env.watched setting (e.foldConstants K env.tolerances)) := by
  have hwritable : Writable (Eq : K → K → Prop) := fun x _ => rfl
  exact ⟨foldConstants_matches hwritable env setting e,
    foldConstants_matches hwritable env.watched setting e⟩

end Expr

end CircuitExpr
