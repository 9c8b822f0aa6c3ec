import CircuitExpr.Evaluation.Evaluate
import CircuitExpr.Native.Instruction
import CircuitExpr.Simplify.Optimize

/-!
# Lowering to native code

An expression over real numbers becomes instructions that yield its value. Nothing is shared:
every occurrence of a variable or constant has an instruction of its own.

## Conditionals

A conditional closes the block at hand with a branch and takes three more: one for each value and
one where they meet. The chosen value is handed over in a stack slot. Blocks are numbered in the
order in which they are written, and how many a value takes is known beforehand, so a branch is
written with its targets.

## Calls

The arguments of a call are stored next to each other in a stack slot, and the function is given
the address of the first.
-/

namespace CircuitExpr

/-! ## Counting conditionals -/

mutual

/-- How many conditionals an expression has. -/
def Expr.conditionals {K : Type} : Expr K → Nat
  | .const _ | .var _ => 0
  | .unary _ operand => Expr.conditionals operand
  | .binary _ left right => Expr.conditionals left + Expr.conditionals right
  | .cond condition whenTrue whenFalse =>
    Expr.conditionals condition + Expr.conditionals whenTrue + Expr.conditionals whenFalse + 1
  | .call _ arguments | .ext _ arguments => Expr.conditionalsEach arguments

def Expr.conditionalsEach {K : Type} : List (Expr K) → Nat
  | [] => 0
  | e :: rest => Expr.conditionals e + Expr.conditionalsEach rest

end

/-! ## Drafts -/

/-- Native code under construction. -/
structure Draft (K : Type) where
  /-- The blocks that are complete. -/
  closed : Array (List (Line K))
  /-- The block at hand, its last instruction first. -/
  current : List (Line K)
  /-- The number of the next instruction. -/
  next : ValueId
  /-- How many stack slots are taken. -/
  slots : Nat
  captures : Captures

/-- A step of lowering. -/
abbrev Lowering (K : Type) := StateT (Draft K) (Except ExpressionError)

namespace Draft

variable {K : Type}

/-- Nothing lowered yet. -/
def empty : Draft K := ⟨#[], [], 0, 0, .empty⟩

/-- Appends an instruction to the block at hand. -/
def push (d : Draft K) (i : NativeInstruction K) : Draft K :=
  { d with current := ⟨d.next, i⟩ :: d.current, next := d.next + 1 }

/-- Appends the last instruction of the block at hand and begins the next block. -/
def close (d : Draft K) (i : NativeInstruction K) : Draft K :=
  let d := d.push i
  { d with closed := d.closed.push d.current.reverse, current := [] }

/-- The number of the block at hand. -/
def block (d : Draft K) : BlockId := d.closed.size

end Draft

namespace Lowering

variable {K : Type}

/-- Appends an instruction and yields the number of its value. -/
def emit (i : NativeInstruction K) : Lowering K ValueId :=
  modifyGet fun d => (d.next, d.push i)

/-- Appends the last instruction of a block. -/
def close (i : NativeInstruction K) : Lowering K Unit := modify fun d => d.close i

/-- Takes a stack slot. -/
def takeSlot : Lowering K Nat := modifyGet fun d => (d.slots, { d with slots := d.slots + 1 })

/-- Captures a source and yields its slot. -/
def captureSource (source : SourceId) : Lowering K Nat :=
  modifyGet fun d =>
    let captures := d.captures.withSource source
    (captures.sourceSlot source, { d with captures := captures })

/-- Captures a function and yields its slot. -/
def captureFunction (f : Native) : Lowering K Nat :=
  modifyGet fun d =>
    let captures := d.captures.withFunction f
    (captures.functionSlot f, { d with captures := captures })

/-- Fails. -/
def fail {α : Type} (e : ExpressionError) : Lowering K α := throw e

end Lowering

/-! ## Operators -/

namespace Lowering

variable {K : Type} [Literal K]

/-- The flag that says whether a number holds. -/
def truth (x : ValueId) : Lowering K ValueId := do
  let half ← emit (.realConst 0.5)
  emit (.compare .greater x half)

/-- A flag as a number. -/
def ofFlag (flag : ValueId) : Lowering K ValueId := do
  let yes ← emit (.realConst 1)
  let no ← emit (.realConst 0)
  emit (.select flag yes no)

/-- An operator in front of an operand. -/
def unary (op : UnaryOp) (x : ValueId) : Lowering K ValueId :=
  match op with
  | .plus => pure x
  | .minus => emit (.negate x)
  | .not => do
    let flag ← truth x
    let yes ← emit (.realConst 1)
    let no ← emit (.realConst 0)
    emit (.select flag no yes)

/-- A comparison by size. -/
def ordering (order : FloatOrder) (x y : ValueId) : Lowering K ValueId := do
  ofFlag (← emit (.compare order x y))

/-- A comparison with tolerances. -/
def equality (tolerances : Tolerances K) (x y : ValueId) : Lowering K ValueId := do
  let relative ← emit (.realConst tolerances.relative)
  let absolute ← emit (.realConst tolerances.absolute)
  emit (.callRoutine .fuzzyEquals [x, y, relative, absolute])

/-- A logical operator on the flags of two numbers. -/
def logical (join : ValueId → ValueId → NativeInstruction K) (x y : ValueId) :
    Lowering K ValueId := do
  let p ← truth x
  let q ← truth y
  ofFlag (← emit (join p q))

/-- An operator between two operands. -/
def binary (tolerances : Tolerances K) (op : BinaryOp) (x y : ValueId) : Lowering K ValueId :=
  match op with
  | .add => emit (.add x y)
  | .sub => emit (.sub x y)
  | .mul => emit (.mul x y)
  | .div => do
    let fudge ← emit (.realConst tolerances.fudge)
    emit (.callRoutine .safeDivide [x, y, fudge])
  | .mod => emit (.callRoutine .modulo [x, y])
  | .pow => emit (.callRoutine .power [x, y])
  | .lt => ordering .less x y
  | .gt => ordering .greater x y
  | .le => ordering .lessOrEqual x y
  | .ge => ordering .greaterOrEqual x y
  | .eq => equality tolerances x y
  | .ne => do
    let equal ← equality tolerances x y
    let one ← emit (.realConst 1)
    emit (.sub one equal)
  | .and => logical .flagAnd x y
  | .or => logical .flagOr x y
  | .xor => logical .flagXor x y

/-- Stores values next to each other, from an index on. -/
def storeEach (slot : Nat) : Nat → List ValueId → Lowering K Unit
  | _, [] => pure ()
  | index, x :: rest => do
    let _ ← emit (.stackStore x slot index)
    storeEach slot (index + 1) rest

/-- The call of a captured function. -/
def call (function : Nat) (arguments : List ValueId) : Lowering K ValueId := do
  let buffer ← takeSlot
  storeEach buffer 0 arguments
  let address ← emit (.stackAddress buffer)
  let slot ← emit (.wordConst function)
  let count ← emit (.wordConst arguments.length)
  emit (.callFunction slot address count)

/-- Stores the chosen value of a conditional and goes to where the values meet. -/
def leave (x : ValueId) (slot : Nat) (merge : BlockId) : Lowering K Unit := do
  let _ ← emit (.stackStore x slot 0)
  close (.jump merge)

end Lowering

/-! ## Expressions -/

namespace Expr

variable {K σ : Type} [RealFunctions K]

open Lowering

mutual

/-- The instructions of an expression; the number of its value is yielded. -/
def lower (env : Environment K K σ) : Expr K → Lowering K ValueId
  | .const value => Lowering.emit (.realConst value)
  | .var v =>
    match env.bindings.get? v with
    | some source => do Lowering.emit (.load (← captureSource source))
    | none => fail (.unboundVariable v.text)
  | .unary op operand => do Lowering.unary op (← lower env operand)
  | .binary op left right => do
    let x ← lower env left
    let y ← lower env right
    Lowering.binary env.tolerances op x y
  | .cond condition whenTrue whenFalse => do
    let flag ← truth (← lower env condition)
    let slot ← takeSlot
    let first := (← get).block + 1
    let second := first + 1 + 3 * whenTrue.conditionals
    let merge := second + 1 + 3 * whenFalse.conditionals
    close (.branch flag first second)
    leave (← lower env whenTrue) slot merge
    leave (← lower env whenFalse) slot merge
    Lowering.emit (.stackLoad slot)
  | .call name arguments => do
    match env.functions.resolve name arguments.length with
    | .error e => fail e
    | .ok d =>
      let function ← captureFunction d.native
      Lowering.call function (← lowerEach env arguments)
  | .ext name arguments => fail (.unrecognizedNode (Expr.ext name arguments).text)

/-- The instructions of several expressions, one after another. -/
def lowerEach (env : Environment K K σ) : List (Expr K) → Lowering K (List ValueId)
  | [] => pure []
  | e :: rest => do
    let x ← lower env e
    return x :: (← lowerEach env rest)

end

end Expr

namespace NativeCode

variable {K σ : Type} [RealFunctions K]

/-- The code of an expression, ended by the return of its value. -/
def lower (env : Environment K K σ) (e : Expr K) : Except ExpressionError (NativeCode K) := do
  let (x, d) ← (e.lower env).run .empty
  let d := d.close (.ret x)
  return ⟨d.closed, d.captures⟩

/-- Checks an expression, optimizes it and lowers the result. -/
def compile (env : Environment K K σ) (e : Expr K) : Except ExpressionError (NativeCode K) := do
  e.validate env
  lower env (e.optimize K env.tolerances)

end NativeCode

end CircuitExpr
