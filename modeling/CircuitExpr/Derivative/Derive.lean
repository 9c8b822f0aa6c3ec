import CircuitExpr.Derivative.Algebra
import CircuitExpr.Expr.Variables
import CircuitExpr.Expr.Write
import CircuitExpr.Function.Library
import CircuitExpr.Variable.Map

/-!
# Symbolic differentiation

The derivative of an expression with respect to a variable is again an expression, which any
backend can evaluate.

## Rules

* conditions and flags have no slope;
* a conditional chooses between the slopes of its two values;
* a call follows the chain rule through the slopes that its function gives, and is not looked at
  when no argument depends on the variable;
* a power loses the sign of its base, so its slope takes that sign. Constant exponents zero, one
  and two are short, and an exponent below one has slope zero at the base zero;
* an extension node has no slope, which is an error when it depends on the variable.
-/

namespace CircuitExpr.Expr

variable {K : Type} [Literal K]

open LibraryFunction (of)

/-! ## Single rules -/

/-- The slope of a remainder: the quotient is cut off towards zero and does not move. -/
def remainderSlope (a b da db : Expr K) : Expr K :=
  let ratio := quotient a b
  let truncated := product (of .sgn [ratio]) (of .floor [of .abs [ratio]])
  difference da (product truncated db)

/-- The slope of a power with a constant exponent. -/
def constantPowerSlope (a : Expr K) (exponent : K) (da : Expr K) : Expr K :=
  if exponent == 0 then zero
  else if exponent == 1 then product (of .sgn [a]) da
  else if exponent == 2.0 then product (product (.const 2.0) a) da
  else
    let reduced := .binary .pow a (.const (exponent - 1))
    let term := product (product (product (.const exponent) reduced) (of .sgn [a])) da
    if exponent < 1 then .cond (.binary .eq a zero) zero term else term

/-- The slope of a power. -/
def powerSlope (a b da db : Expr K) : Expr K :=
  match b.constant? with
  | some exponent => constantPowerSlope a exponent da
  | none =>
    product (.binary .pow a b)
      (sum (product db (of .log [of .abs [a]])) (quotient (product b da) a))

/-- The slope of an operation between operands with known slopes. -/
def binarySlope (op : BinaryOp) (a b da db : Expr K) : Expr K :=
  match op with
  | .add => sum da db
  | .sub => difference da db
  | .mul => sum (product da b) (product a db)
  | .div => quotient (difference (product da b) (product a db)) (product b b)
  | .mod => remainderSlope a b da db
  | .pow => powerSlope a b da db
  | _ => zero

/-- The choice between two slopes; none is needed between equal constants. -/
def conditionalSlope (condition dt df : Expr K) : Expr K :=
  match dt.constant?, df.constant? with
  | some x, some y => if x == y then dt else .cond condition dt df
  | _, _ => .cond condition dt df

/-- The chain rule: the slopes of a function times those of its arguments. -/
def chain (partials slopes : List (Expr K)) : Expr K :=
  (partials.zip slopes).foldl
    (fun total term => if term.2.isValue 0 then total else sum total (product term.1 term.2)) zero

/-! ## Derivatives -/

mutual

/-- The derivative with respect to a variable. -/
def derive (t : FunctionTable K) (c : NameComparison) (v : Variable) :
    Expr K → Except ExpressionError (Expr K)
  | .const _ => .ok zero
  | .var w => .ok (if c.same w v then one else zero)
  | .unary .plus operand => derive t c v operand
  | .unary .minus operand => do return negate (← derive t c v operand)
  | .unary .not _ => .ok zero
  | .binary op left right =>
    if op.isLogical then .ok zero
    else do
      let da ← derive t c v left
      let db ← derive t c v right
      return binarySlope op left right da db
  | .cond condition whenTrue whenFalse => do
    let dt ← derive t c v whenTrue
    let df ← derive t c v whenFalse
    return conditionalSlope condition dt df
  | .call name arguments =>
    if !anyDependsOn c v arguments then .ok zero
    else do
      let d ← t.resolve name arguments.length
      match d.rule with
      | none => .error (.undifferentiableFunction name)
      | some rule =>
        let partials := rule arguments
        if partials.length != arguments.length then .error (.undifferentiableFunction name)
        else return chain partials (← deriveEach t c v arguments)
  | .ext name arguments =>
    if anyDependsOn c v arguments then .error (.unrecognizedNode (Expr.ext name arguments).text)
    else .ok zero

/-- The derivatives of several expressions, up to the first failure. -/
def deriveEach (t : FunctionTable K) (c : NameComparison) (v : Variable) :
    List (Expr K) → Except ExpressionError (List (Expr K))
  | [] => .ok []
  | e :: rest => do
    let d ← derive t c v e
    return d :: (← deriveEach t c v rest)

end

/-- The derivatives with respect to several variables, each variable once. -/
def deriveTargets (t : FunctionTable K) (c : NameComparison) (e : Expr K)
    (targets : List Variable) : Except ExpressionError (VariableMap (Expr K)) := do
  let derived ← targets.mapM fun v => do return (v, ← derive t c v e)
  return VariableMap.ofList c derived

end CircuitExpr.Expr
