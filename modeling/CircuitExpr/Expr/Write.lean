import CircuitExpr.Expr.Basic

/-!
# Written forms of expressions

The written form puts every operator in parentheses, so that it needs no precedences:
`((v(a) * 2) + max(x, 1))`. The outline names every node.
-/

namespace CircuitExpr.Expr

/-! ## Written form -/

section Text

variable {K : Type} [Literal K]

mutual

/-- The written form. -/
def text : Expr K → String
  | .const value => Literal.text value
  | .var v => v.text
  | .unary op operand => op.symbol ++ "(" ++ text operand ++ ")"
  | .binary op left right => "(" ++ text left ++ " " ++ op.symbol ++ " " ++ text right ++ ")"
  | .cond condition whenTrue whenFalse =>
    "(" ++ text condition ++ " ? " ++ text whenTrue ++ " : " ++ text whenFalse ++ ")"
  | .call name arguments | .ext name arguments =>
    name ++ "(" ++ Text.commaSeparated (textAll arguments) ++ ")"

/-- The written forms of a list of expressions. -/
def textAll : List (Expr K) → List String
  | [] => []
  | e :: rest => text e :: textAll rest

end

theorem textAll_eq_map (es : List (Expr K)) : textAll es = es.map text := by
  induction es with
  | nil => rfl
  | cons e rest ih => rw [textAll, List.map_cons, ih]

end Text

/-! ## Outline -/

mutual

/-- The outline of an expression over doubles. -/
def inspect : Expr Float → String
  | .const value => Text.applied "Constant" [Decimal.inspect value]
  | .var v => Text.applied "Variable" [v.inspect]
  | .unary op operand => Text.applied "Unary" [op.inspect, inspect operand]
  | .binary op left right => Text.applied "Binary" [op.inspect, inspect left, inspect right]
  | .cond condition whenTrue whenFalse =>
    Text.applied "Ternary" [inspect condition, inspect whenTrue, inspect whenFalse]
  | .call name arguments =>
    Text.applied "Call" [Text.quote name, Text.bracketed (inspectAll arguments)]
  | .ext name arguments =>
    Text.applied "Extension" [Text.quote name, Text.bracketed (inspectAll arguments)]

/-- The outlines of a list of expressions. -/
def inspectAll : List (Expr Float) → List String
  | [] => []
  | e :: rest => inspect e :: inspectAll rest

end

end CircuitExpr.Expr
