/-!
# Operators

The operators of expressions and the three classes that matter elsewhere: orderings, which not
every kind of number has; conditions, which have no slope; and arithmetic.
-/

namespace CircuitExpr

/-- Operators in front of one operand. -/
inductive UnaryOp where
  | plus
  | minus
  | not
deriving DecidableEq

/-- Operators between two operands. -/
inductive BinaryOp where
  | add
  | sub
  | mul
  | div
  | mod
  | lt
  | gt
  | le
  | ge
  | eq
  | ne
  | and
  | or
  | xor
  | pow
deriving DecidableEq

namespace UnaryOp

def symbol : UnaryOp → String
  | plus => "+"
  | minus => "-"
  | not => "!"

def inspect : UnaryOp → String
  | plus => "Plus"
  | minus => "Minus"
  | not => "Not"

end UnaryOp

namespace BinaryOp

def symbol : BinaryOp → String
  | add => "+"
  | sub => "-"
  | mul => "*"
  | div => "/"
  | mod => "%"
  | lt => "<"
  | gt => ">"
  | le => "<="
  | ge => ">="
  | eq => "=="
  | ne => "!="
  | and => "&&"
  | or => "||"
  | xor => "^^"
  | pow => "^"

def inspect : BinaryOp → String
  | add => "Add"
  | sub => "Sub"
  | mul => "Mul"
  | div => "Div"
  | mod => "Mod"
  | lt => "Lt"
  | gt => "Gt"
  | le => "Le"
  | ge => "Ge"
  | eq => "Eq"
  | ne => "Ne"
  | and => "And"
  | or => "Or"
  | xor => "Xor"
  | pow => "Pow"

/-- The comparisons that need an order. -/
def isOrdering : BinaryOp → Bool
  | lt | gt | le | ge => true
  | _ => false

/-- The operators whose value is a flag. -/
def isLogical : BinaryOp → Bool
  | lt | gt | le | ge | eq | ne | and | or | xor => true
  | _ => false

end BinaryOp

end CircuitExpr
