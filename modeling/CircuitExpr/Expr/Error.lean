import CircuitExpr.Expr.Operator
import CircuitExpr.Function.Arity

/-!
# What can be wrong with an expression

The causes for which an expression cannot be evaluated, differentiated or compiled, and their
messages.
-/

namespace CircuitExpr

/-- Why an expression is refused. -/
inductive ExpressionError where
  /-- A node for which nothing is prepared, in its written form. -/
  | unrecognizedNode (node : String)
  /-- A variable that is bound to no source, in its written form. -/
  | unboundVariable (variableText : String)
  /-- A call of a function that is not registered. -/
  | unknownFunction (name : String)
  /-- A call with too many or too few arguments. -/
  | arityMismatch (name : String) (expected : Arity) (got : Nat)
  /-- A function whose slope is asked for and not known. -/
  | undifferentiableFunction (name : String)
  /-- An operator that the numbers at hand do not have. -/
  | unsupportedOperator (op : BinaryOp) (domain : String)
deriving DecidableEq

/-- The message. -/
def ExpressionError.message : ExpressionError → String
  | unrecognizedNode node => "unrecognized expression node: " ++ node
  | unboundVariable v => "unbound variable: " ++ v
  | unknownFunction name => "unrecognized call to function '" ++ name ++ "'"
  | arityMismatch name expected got =>
    "function '" ++ name ++ "' expects " ++ expected.text ++ " argument(s), got " ++ toString got
  | undifferentiableFunction name => "function '" ++ name ++ "' has no derivative rule"
  | unsupportedOperator op domain =>
    "operator '" ++ op.symbol ++ "' is not supported for " ++ domain ++ " values"

end CircuitExpr
