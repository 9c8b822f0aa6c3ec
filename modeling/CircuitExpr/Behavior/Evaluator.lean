import CircuitExpr.Native.Execute
import CircuitExpr.Program.Run

/-!
# Evaluators

An expression that has passed all checks in its environment is evaluated in one of three ways: as
it is, by a stack machine, or by native code. Native code exists for domains whose numbers are
those of the machine; elsewhere the stack machine takes its place.

An evaluator keeps numbers from one call to the next: the stack that a program works on, or the
inputs of native code. They are there to be used again; a call starts by clearing them away or
writing over them.

## Contents

* `Backend` — the three ways
* `Evaluator` — an expression ready to be evaluated at any setting of the sources
* `Evaluator.call` — the value, and the evaluator as the call leaves it
* `Domain` — a domain of numbers together with its native code, if there is one
* `Evaluator.build` — checks an expression and makes it ready
-/

namespace CircuitExpr

/-- The ways of evaluating an expression. -/
inductive Backend where
  | interpreted
  | program
  | jit
deriving DecidableEq

namespace Backend

/-- The written form. -/
def text : Backend → String
  | interpreted => "interpreted"
  | program => "program"
  | jit => "jit"

/-- The outline. -/
def inspect : Backend → String
  | interpreted => "Interpreted"
  | program => "Program"
  | jit => "Jit"

end Backend

/-- An expression ready to be evaluated. -/
structure Evaluator (D σ : Type) where
  /-- The way in which it is evaluated, which may be another than was asked for. -/
  backend : Backend
  /-- What is kept from one call to the next. -/
  buffer : List D
  /-- The value, starting with a used buffer, and what the buffer is left with. -/
  compute : Setting D → List D → StateM σ (D × List D)

/-- A domain of numbers with a way to native code, if it has one. -/
class Domain (D : Type) (K : outParam Type) [Literal K] extends Scalar D K where
  native? : {σ : Type} → Environment K D σ → Expr K →
    Option (Except ExpressionError (Evaluator D σ))

namespace Evaluator

section Any

variable {K D σ : Type}

/-- The value, and the evaluator for the next call. -/
def call (evaluator : Evaluator D σ) (setting : Setting D) : StateM σ (D × Evaluator D σ) := do
  let (x, buffer) ← evaluator.compute setting evaluator.buffer
  return (x, { evaluator with buffer := buffer })

/-- The value at a setting of the sources. -/
def value (evaluator : Evaluator D σ) (setting : Setting D) : StateM σ D := do
  return (← evaluator.call setting).1

variable [Literal K] [Scalar D K]

/-- Evaluates the expression as it is. A failure after all checks has no value. -/
def interpreted (env : Environment K D σ) (e : Expr K) :
    Except ExpressionError (Evaluator D σ) := do
  e.validate env
  return {
    backend := .interpreted
    buffer := []
    compute := fun setting buffer => do
      match ← (e.evaluate env setting).run with
      | .ok x => return (x, buffer)
      | .error _ => return (Scalar.undefined, buffer) }

/-- Evaluates by the stack machine. -/
def program (env : Environment K D σ) (e : Expr K) :
    Except ExpressionError (Evaluator D σ) := do
  let p ← Program.compile env e
  return ⟨.program, [], p.runOn⟩

end Any

/-- Evaluates by native code. -/
def native {K σ : Type} [RealFunctions K] (env : Environment K K σ) (e : Expr K) :
    Except ExpressionError (Evaluator K σ) := do
  let c ← NativeCode.compile env e
  return ⟨.jit, c.blank, c.executeOn env.natives⟩

/-- Checks an expression and makes it ready for a backend. -/
def build {K D σ : Type} [Literal K] [Domain D K] (env : Environment K D σ) (e : Expr K)
    (backend : Backend) : Except ExpressionError (Evaluator D σ) :=
  match backend with
  | .interpreted => interpreted env e
  | .program => program env e
  | .jit =>
    match Domain.native? env e with
    | some result => result
    | none => program env e

end Evaluator

instance {K : Type} [RealFunctions K] : Domain K K where
  native? env e := some (Evaluator.native env e)

instance {K : Type} [RealFunctions K] : Domain (Complex K) K where
  native? _ _ := none

end CircuitExpr
