import CircuitExpr.Evaluation.Evaluate
import CircuitExpr.Program.Captures
import CircuitExpr.Program.Instruction

/-!
# Assembling programs

An expression becomes instructions that leave its value on the stack: first those of its
operands, from left to right, then its own.

## Jumps

```text
        condition
        jumpIfFalse other
        value where the condition holds
        jump done
other:  value elsewhere
done:
```

Where a jump leads is known only when the code in between is written. Until then it has
`Assembly.openTarget`, and `Assembly.patch` puts the target in.

## Depth

Along with the code the height of the stack is counted. Either value of a conditional starts
from the same height, so behind the first one the count is set back. The height in front of each
instruction is kept in `Assembly.heights`, which no instruction depends on.
-/

namespace CircuitExpr

/-! ## Code under construction -/

/-- Code under construction. -/
structure Assembly (D : Type) where
  code : Array (Instruction D)
  captures : Captures
  /-- The height of the stack behind the code so far. -/
  depth : Nat
  /-- The greatest height on the way. -/
  maxDepth : Nat
  /-- The height of the stack in front of each instruction. -/
  heights : Array Nat
  heights_size : heights.size = code.size

namespace Assembly

variable {D : Type}

/-- No code yet. -/
def empty : Assembly D := ⟨#[], .empty, 0, 0, #[], rfl⟩

/-- The target of a jump that is not known yet. No code is that long. -/
def openTarget : Nat := 0xffffffffffffffff

/-- Appends an instruction. -/
def push (a : Assembly D) (i : Instruction D) : Assembly D :=
  let depth := a.depth - i.takes + i.puts
  { code := a.code.push i
    captures := a.captures
    depth := depth
    maxDepth := max a.maxDepth depth
    heights := a.heights.push a.depth
    heights_size := by simp [a.heights_size] }

/-- Lets the jump at an earlier place lead behind the code so far. -/
def patch (a : Assembly D) (place : Nat) (jump : Nat → Instruction D) : Assembly D :=
  { a with
    code := a.code.setIfInBounds place (jump a.code.size)
    heights_size := by simp [a.heights_size] }

/-- Captures a source and loads it. -/
def load (a : Assembly D) (source : SourceId) : Assembly D :=
  let captures := a.captures.withSource source
  { a with captures := captures }.push (.load (captures.sourceSlot source))

/-- Captures a function. -/
def withFunction (a : Assembly D) (f : Native) : Assembly D :=
  { a with captures := a.captures.withFunction f }

/-- Goes back to an earlier height of the stack. -/
def withDepth (a : Assembly D) (depth : Nat) : Assembly D := { a with depth := depth }

end Assembly

/-! ## Assembly -/

namespace Expr

variable {K D σ : Type} [Literal K] [Scalar D K]

/-- The instruction of an operator in front of an operand, if it takes one. -/
def emitUnary (op : UnaryOp) (a : Assembly D) : Assembly D :=
  match op with
  | .plus => a
  | .minus => a.push .neg
  | .not => a.push .not

mutual

/-- Appends the code of an expression. -/
def emit (env : Environment K D σ) : Expr K → Assembly D → Except ExpressionError (Assembly D)
  | .const value, a => .ok (a.push (.const (Scalar.ofReal value)))
  | .var v, a =>
    match env.bindings.get? v with
    | some source => .ok (a.load source)
    | none => .error (.unboundVariable v.text)
  | .unary op operand, a => do return emitUnary op (← emit env operand a)
  | .binary op left right, a =>
    if lacks D op then .error (.unsupportedOperator op (Scalar.domain D))
    else do
      let a ← emit env left a
      let a ← emit env right a
      return a.push (.apply op)
  | .cond condition whenTrue whenFalse, a => do
    let a ← emit env condition a
    let branch := a.code.size
    let a := a.push (.jumpIfFalse Assembly.openTarget)
    let depth := a.depth
    let a ← emit env whenTrue a
    let exit := a.code.size
    let a := a.push (.jump Assembly.openTarget)
    let a := (a.withDepth depth).patch branch .jumpIfFalse
    let a ← emit env whenFalse a
    return a.patch exit .jump
  | .call name arguments, a => do
    let d ← env.functions.resolve name arguments.length
    let a := a.withFunction d.native
    let slot := a.captures.functionSlot d.native
    let a ← emitEach env arguments a
    return a.push (.call slot arguments.length)
  | .ext name arguments, _ => .error (.unrecognizedNode (Expr.ext name arguments).text)

/-- Appends the code of several expressions, one after another. -/
def emitEach (env : Environment K D σ) :
    List (Expr K) → Assembly D → Except ExpressionError (Assembly D)
  | [], a => .ok a
  | e :: rest, a => do emitEach env rest (← emit env e a)

end

theorem emit_var_eq_ok {env : Environment K D σ} {v : Variable} {a b : Assembly D} :
    emit env (.var v) a = .ok b ↔
      ∃ source, env.bindings.get? v = some source ∧ a.load source = b := by
  rw [emit]
  cases env.bindings.get? v with
  | none => simp
  | some source => simp

end Expr

end CircuitExpr
