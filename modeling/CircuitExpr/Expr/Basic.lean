import CircuitExpr.Expr.Operator
import CircuitExpr.Numeric.Literal
import CircuitExpr.Variable.Basic

/-!
# Expressions

The tree that every part of the library works on: constants, variables, operators, the
conditional, calls of registered functions, and extension nodes whose meaning a host gives.

## Contents

* `Expr K` — expressions with constants in `K`
* `Expr.induction` — induction with a hypothesis for every argument of a call
* `Expr.size`, `Expr.isConstant`, `Expr.children` — plain measures of a tree
-/

namespace CircuitExpr

/-- Expressions with constants in `K`. -/
inductive Expr (K : Type) where
  | const (value : K)
  | var (v : Variable)
  | unary (op : UnaryOp) (operand : Expr K)
  | binary (op : BinaryOp) (left right : Expr K)
  /-- The second operand where the first one holds, the third elsewhere. -/
  | cond (condition whenTrue whenFalse : Expr K)
  | call (name : String) (arguments : List (Expr K))
  /-- A node that only a host can evaluate. -/
  | ext (name : String) (arguments : List (Expr K))

namespace Expr

variable {K : Type}

/-! ## Induction -/

/-- What holds of an expression as soon as it holds of its parts holds of all expressions. -/
theorem induction {motive : Expr K → Prop}
    (const : ∀ value, motive (.const value))
    (var : ∀ v, motive (.var v))
    (unary : ∀ op operand, motive operand → motive (.unary op operand))
    (binary : ∀ op left right, motive left → motive right → motive (.binary op left right))
    (cond : ∀ condition whenTrue whenFalse, motive condition → motive whenTrue →
      motive whenFalse → motive (.cond condition whenTrue whenFalse))
    (call : ∀ name arguments, (∀ a ∈ arguments, motive a) → motive (.call name arguments))
    (ext : ∀ name arguments, (∀ a ∈ arguments, motive a) → motive (.ext name arguments))
    (e : Expr K) : motive e :=
  @Expr.rec K motive (fun es => ∀ a ∈ es, motive a) const var unary binary cond call ext
    (fun _ h => nomatch h)
    (fun _ _ he hrest a h =>
      match List.mem_cons.mp h with
      | .inl ha => ha ▸ he
      | .inr hr => hrest a hr)
    e

/-! ## Constants -/

/-- The value of a constant node. -/
def constant? : Expr K → Option K
  | .const value => some value
  | _ => none

/-- Whether the expression is a constant node of this value; zeros of either sign are equal. -/
def isValue [BEq K] (value : K) (e : Expr K) : Bool :=
  match e.constant? with
  | some x => x == value
  | none => false

/-- Whether the value depends on nothing but operators and constants. -/
def isConstant : Expr K → Bool
  | .const _ => true
  | .var _ | .call _ _ | .ext _ _ => false
  | .unary _ operand => isConstant operand
  | .binary _ left right => isConstant left && isConstant right
  | .cond condition whenTrue whenFalse =>
    isConstant condition && isConstant whenTrue && isConstant whenFalse

/-! ## Shape -/

/-- The direct parts, from left to right. -/
def children : Expr K → List (Expr K)
  | .const _ | .var _ => []
  | .unary _ operand => [operand]
  | .binary _ left right => [left, right]
  | .cond condition whenTrue whenFalse => [condition, whenTrue, whenFalse]
  | .call _ arguments | .ext _ arguments => arguments

mutual

/-- How many nodes the tree has. -/
def size : Expr K → Nat
  | .const _ | .var _ => 1
  | .unary _ operand => 1 + size operand
  | .binary _ left right => 1 + size left + size right
  | .cond condition whenTrue whenFalse => 1 + size condition + size whenTrue + size whenFalse
  | .call _ arguments | .ext _ arguments => 1 + sizeAll arguments

/-- How many nodes the trees have together. -/
def sizeAll : List (Expr K) → Nat
  | [] => 0
  | e :: rest => size e + sizeAll rest

end

end Expr

end CircuitExpr
