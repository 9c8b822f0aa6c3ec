import CircuitExpr.Expr.Basic

/-!
# Folding constructors

Sums, differences, products, quotients and negatives that fold what is certain: two constants
are computed at once, and zeros and ones disappear. Derivatives are put together by these, so
that a term that is zero everywhere leaves no trace.

A product with a zero is zero even where the other factor has no value.
-/

namespace CircuitExpr.Expr

variable {K : Type} [Literal K]

/-- The constant zero. -/
def zero : Expr K := .const 0

/-- The constant one. -/
def one : Expr K := .const 1

/-- The negative. -/
def negate : Expr K → Expr K
  | .const x => .const (-x)
  | .unary .minus inner => inner
  | e => .unary .minus e

/-- The sum. -/
def sum (a b : Expr K) : Expr K :=
  match a.constant?, b.constant? with
  | some x, some y => .const (x + y)
  | some x, none => if x == 0 then b else .binary .add a b
  | none, some y => if y == 0 then a else .binary .add a b
  | none, none => .binary .add a b

/-- The difference. -/
def difference (a b : Expr K) : Expr K :=
  match a.constant?, b.constant? with
  | some x, some y => .const (x - y)
  | none, some y => if y == 0 then a else .binary .sub a b
  | some x, none => if x == 0 then negate b else .binary .sub a b
  | none, none => .binary .sub a b

/-- The product. -/
def product (a b : Expr K) : Expr K :=
  match a.constant?, b.constant? with
  | some x, some y => .const (x * y)
  | some x, none => if x == 0 then zero else if x == 1 then b else .binary .mul a b
  | none, some y => if y == 0 then zero else if y == 1 then a else .binary .mul a b
  | none, none => .binary .mul a b

/-- The quotient. Constants are not divided, since that takes the tolerances. -/
def quotient (a b : Expr K) : Expr K :=
  if a.isValue 0 then zero else if b.isValue 1 then a else .binary .div a b

end CircuitExpr.Expr
