import CircuitExpr.Numeric.Scalar

/-!
# Operators on numbers

What the operators of expressions do to numbers of a domain. Evaluation and constant folding
share these, so that a folded tree computes what the unfolded one does.
-/

namespace CircuitExpr

variable {D K : Type} [Literal K] [Scalar D K]

/-- The value of an operator in front of an operand. -/
def UnaryOp.apply (op : UnaryOp) (x : D) : D :=
  match op with
  | .plus => x
  | .minus => -x
  | .not => Scalar.ofBool (!Scalar.isTrue x)

/-- The value of an operator between two operands. Only orderings can fail. -/
def BinaryOp.apply (tolerances : Tolerances K) (op : BinaryOp) (x y : D) :
    Except ExpressionError D :=
  match op with
  | .add => .ok (x + y)
  | .sub => .ok (x - y)
  | .mul => .ok (x * y)
  | .div => .ok (Scalar.safeDivide x y tolerances.fudge)
  | .mod => .ok (Scalar.modulo x y)
  | .pow => .ok (Scalar.power x y)
  | .eq => .ok (Scalar.ofBool (Scalar.fuzzyEquals x y tolerances))
  | .ne => .ok (Scalar.ofBool (!Scalar.fuzzyEquals x y tolerances))
  | .and => .ok (Scalar.ofBool (Scalar.isTrue x && Scalar.isTrue y))
  | .or => .ok (Scalar.ofBool (Scalar.isTrue x || Scalar.isTrue y))
  | .xor => .ok (Scalar.ofBool (Scalar.isTrue x != Scalar.isTrue y))
  | .lt | .gt | .le | .ge => (Scalar.compare op x y).map Scalar.ofBool

end CircuitExpr
