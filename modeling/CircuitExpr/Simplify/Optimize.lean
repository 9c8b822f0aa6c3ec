import CircuitExpr.Simplify.Fold

/-!
# Optimization

After folding, additions and subtractions of zero and multiplications by one are dropped. This
is what compiled backends start from.

An added zero is dropped before it is looked at on the other side, so of two constants the left
one stays.
-/

namespace CircuitExpr.Expr

variable {K : Type} [Literal K]

/-- An operator between operands without neutral parts. -/
def dropNeutralBinary (op : BinaryOp) (left right : Expr K) : Expr K :=
  match op with
  | .add =>
    if right.isValue 0 then left else if left.isValue 0 then right else .binary .add left right
  | .sub => if right.isValue 0 then left else .binary .sub left right
  | .mul =>
    if right.isValue 1 then left else if left.isValue 1 then right else .binary .mul left right
  | op => .binary op left right

mutual

/-- Drops additions of zero and multiplications by one, innermost first. -/
def dropNeutral : Expr K → Expr K
  | .const value => .const value
  | .var v => .var v
  | .unary op operand => .unary op (dropNeutral operand)
  | .binary op left right => dropNeutralBinary op (dropNeutral left) (dropNeutral right)
  | .cond condition whenTrue whenFalse =>
    .cond (dropNeutral condition) (dropNeutral whenTrue) (dropNeutral whenFalse)
  | .call name arguments => .call name (dropNeutralEach arguments)
  | .ext name arguments => .ext name (dropNeutralEach arguments)

/-- Drops neutral parts of several expressions. -/
def dropNeutralEach : List (Expr K) → List (Expr K)
  | [] => []
  | e :: rest => dropNeutral e :: dropNeutralEach rest

end

/-- Folds constants and then drops neutral parts. -/
def optimize (D : Type) [Scalar D K] (tolerances : Tolerances K) (e : Expr K) : Expr K :=
  dropNeutral (foldConstants D tolerances e)

end CircuitExpr.Expr
