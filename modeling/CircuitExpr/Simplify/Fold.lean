import CircuitExpr.Evaluation.Operation
import CircuitExpr.Expr.Basic

/-!
# Constant folding

Operators between constants are computed, and a conditional with a constant condition gives way
to the value it chooses. The folding is done with the numbers of a domain, so that the folded
tree computes what the unfolded one does. A result is kept only when it can be written as a
constant again, that is when it equals a real number; an undefined value is not.

Calls are never folded: a function need not give the same value twice.
-/

namespace CircuitExpr.Expr

variable {K : Type} [Literal K]

/-- The constant with this value, if there is one. -/
def literal? (D : Type) [Scalar D K] (x : D) : Option (Expr K) :=
  if Scalar.ofReal (Scalar.real x) == x then some (.const (Scalar.real x)) else none

/-- An operator in front of a folded operand. -/
def foldUnary (D : Type) [Scalar D K] (op : UnaryOp) (operand : Expr K) : Expr K :=
  match operand.constant? with
  | some x => (literal? D (op.apply (Scalar.ofReal x))).getD (.unary op operand)
  | none => .unary op operand

/-- An operator between folded operands. -/
def foldBinary (D : Type) [Scalar D K] (tolerances : Tolerances K) (op : BinaryOp)
    (left right : Expr K) : Expr K :=
  match left.constant?, right.constant? with
  | some x, some y =>
    match op.apply tolerances (Scalar.ofReal x : D) (Scalar.ofReal y) with
    | .ok value => (literal? D value).getD (.binary op left right)
    | .error _ => .binary op left right
  | _, _ => .binary op left right

mutual

/-- Folds an expression. -/
def foldConstants (D : Type) [Scalar D K] (tolerances : Tolerances K) : Expr K → Expr K
  | .const value => .const value
  | .var v => .var v
  | .unary op operand => foldUnary D op (foldConstants D tolerances operand)
  | .binary op left right =>
    foldBinary D tolerances op (foldConstants D tolerances left) (foldConstants D tolerances right)
  | .cond condition whenTrue whenFalse =>
    let folded := foldConstants D tolerances condition
    match folded.constant? with
    | some x =>
      if Scalar.isTrue (Scalar.ofReal x : D) then foldConstants D tolerances whenTrue
      else foldConstants D tolerances whenFalse
    | none =>
      .cond folded (foldConstants D tolerances whenTrue) (foldConstants D tolerances whenFalse)
  | .call name arguments => .call name (foldEach D tolerances arguments)
  | .ext name arguments => .ext name (foldEach D tolerances arguments)

/-- Folds several expressions. -/
def foldEach (D : Type) [Scalar D K] (tolerances : Tolerances K) : List (Expr K) → List (Expr K)
  | [] => []
  | e :: rest => foldConstants D tolerances e :: foldEach D tolerances rest

end

end CircuitExpr.Expr
