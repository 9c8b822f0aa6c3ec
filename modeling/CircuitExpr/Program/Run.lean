import CircuitExpr.Program.Assemble
import CircuitExpr.Simplify.Optimize

/-!
# Programs

A finished program and its execution. All jumps of assembled code lead forward, so no instruction
is executed twice and as many steps as there are instructions suffice.

## Contents

* `Program.assemble` — the code of several expressions, one after another, as they are
* `Program.compile` — checks an expression, optimizes it and assembles the result
* `Program.runOn` — a run on a stack on which an earlier run may have left something
* `Program.run` — the number on top of the stack in the end
-/

namespace CircuitExpr

/-- A compiled expression. -/
structure Program (K D σ : Type) where
  code : Array (Instruction D)
  captures : Captures
  /-- The greatest height of the stack. -/
  stackSize : Nat
  tolerances : Tolerances K
  natives : Native → List D → StateM σ D

namespace Program

variable {K D σ : Type} [Literal K] [Scalar D K]

/-! ## Compiling -/

/-- The program of finished code. -/
def ofAssembly (env : Environment K D σ) (a : Assembly D) : Program K D σ :=
  { code := a.code
    captures := a.captures
    stackSize := a.maxDepth
    tolerances := env.tolerances
    natives := env.natives }

/-- The program that computes several expressions in turn, without checks or optimization. -/
def assemble (env : Environment K D σ) (es : List (Expr K)) :
    Except ExpressionError (Program K D σ) := do
  return ofAssembly env (← Expr.emitEach env es .empty)

/-- The program of an expression. -/
def compile (env : Environment K D σ) (e : Expr K) : Except ExpressionError (Program K D σ) := do
  e.validate env
  assemble env [e.optimize D env.tolerances]

/-! ## Running -/

/-- Replaces the topmost number; an empty stack stays empty. -/
def replaceTop (f : D → D) : List D → List D
  | [] => []
  | x :: rest => f x :: rest

/-- The topmost number and the others; an empty stack yields `missing`. -/
def pop (missing : D) : List D → D × List D
  | [] => (missing, [])
  | x :: rest => (x, rest)

/-- An operator between the two topmost numbers. One that fails counts as not holding. -/
def applyTop (tolerances : Tolerances K) (op : BinaryOp) (stack : List D) : List D :=
  let (right, stack) := pop Scalar.undefined stack
  let (left, stack) := pop Scalar.undefined stack
  match op.apply tolerances left right with
  | .ok value => value :: stack
  | .error _ => Scalar.ofBool false :: stack

/-- Calls the function of a slot with the topmost numbers. -/
def callTop (p : Program K D σ) (slot argc : Nat) (stack : List D) : StateM σ (List D) := do
  match p.captures.functions[slot]? with
  | some f => return (← p.natives f (stack.take argc).reverse) :: stack.drop argc
  | none => return Scalar.undefined :: stack.drop argc

/-- One instruction at the place `pc`: the next place and the next stack. -/
def step (p : Program K D σ) (setting : Setting D) (i : Instruction D) (pc : Nat)
    (stack : List D) : StateM σ (Nat × List D) := do
  match i with
  | .const value => return (pc + 1, value :: stack)
  | .load slot =>
    let value := (p.captures.sources[slot]?.map setting).getD Scalar.undefined
    return (pc + 1, value :: stack)
  | .neg => return (pc + 1, replaceTop (fun x => -x) stack)
  | .not => return (pc + 1, replaceTop (fun x => Scalar.ofBool (!Scalar.isTrue x)) stack)
  | .apply op => return (pc + 1, applyTop p.tolerances op stack)
  | .call slot argc => return (pc + 1, ← p.callTop slot argc stack)
  | .jumpIfFalse target =>
    let (condition, stack) := pop Scalar.zero stack
    return (if Scalar.isTrue condition then pc + 1 else target, stack)
  | .jump target => return (target, stack)

/-- At most `fuel` instructions from the place `pc` on. -/
def runFrom (p : Program K D σ) (setting : Setting D) :
    Nat → Nat → List D → StateM σ (List D)
  | 0, _, stack => return stack
  | fuel + 1, pc, stack => do
    match p.code[pc]? with
    | none => return stack
    | some i =>
      let (pc, stack) ← p.step setting i pc stack
      runFrom p setting fuel pc stack

/-- The stack at the beginning of a run: whatever was left on it is cleared away. -/
def cleared (_leftover : List D) : List D := []

/-- Runs the program on a used stack. What is on top in the end is the result, the rest is left. -/
def runOn (p : Program K D σ) (setting : Setting D) (leftover : List D) :
    StateM σ (D × List D) := do
  let stack ← p.runFrom setting p.code.size 0 (cleared leftover)
  return pop Scalar.undefined stack

/-- Runs the program on a fresh stack. -/
def run (p : Program K D σ) (setting : Setting D) : StateM σ D := do
  return (← p.runOn setting []).1

/-- The outline, given that of a number. -/
def inspect (outline : D → String) (p : Program K D σ) : String :=
  Text.record "Program"
    [("ops", Text.bracketed (p.code.toList.map (Instruction.inspect outline))),
      ("captures", p.captures.inspect)]

end Program

end CircuitExpr
