import CircuitExpr.Expr.Operator
import CircuitExpr.Text.Record

/-!
# Instructions of the stack machine

Every instruction takes its operands from the top of the stack and leaves its result there. The
machine goes through the instructions in order; a conditional jumps forward over the value that
is not chosen.
-/

namespace CircuitExpr

/-- One instruction. -/
inductive Instruction (D : Type) where
  | const (value : D)
  /-- The value of a captured source. -/
  | load (slot : Nat)
  | neg
  | not
  /-- An operator between the two topmost numbers, the right one on top. -/
  | apply (op : BinaryOp)
  /-- Calls a captured function with the topmost `argc` numbers, the last one on top. -/
  | call (function argc : Nat)
  /-- Takes the topmost number and goes to `target` unless it holds. -/
  | jumpIfFalse (target : Nat)
  | jump (target : Nat)

namespace Instruction

variable {D : Type}

/-- How many numbers an instruction takes off the stack. -/
def takes : Instruction D → Nat
  | const _ | load _ | jump _ => 0
  | neg | not | jumpIfFalse _ => 1
  | apply _ => 2
  | call _ argc => argc

/-- How many numbers an instruction puts on the stack. -/
def puts : Instruction D → Nat
  | jumpIfFalse _ | jump _ => 0
  | const _ | load _ | neg | not | apply _ | call _ _ => 1

/-- The outline of an operator as an instruction. -/
def inspectOperator (op : BinaryOp) : String :=
  match op with
  | .lt | .gt | .le | .ge => Text.applied "Compare" [op.inspect]
  | .eq => Text.record "Equals" [("negate", Text.truth false)]
  | .ne => Text.record "Equals" [("negate", Text.truth true)]
  | op => op.inspect

/-- The outline, given that of a number. -/
def inspect (outline : D → String) : Instruction D → String
  | const value => Text.applied "Const" [outline value]
  | load slot => Text.applied "Load" [toString slot]
  | neg => "Neg"
  | not => "Not"
  | apply op => inspectOperator op
  | call function argc =>
    Text.record "Call" [("function", toString function), ("argc", toString argc)]
  | jumpIfFalse target => Text.applied "JumpIfFalse" [toString target]
  | jump target => Text.applied "Jump" [toString target]

end Instruction

end CircuitExpr
