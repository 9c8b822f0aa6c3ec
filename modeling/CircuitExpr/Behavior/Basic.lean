import CircuitExpr.Behavior.Evaluator
import CircuitExpr.Derivative.Derive
import CircuitExpr.Grammar.Read

/-!
# Behaviors

The behavior of an element is an expression together with its derivatives, all ready to be
evaluated. A solver asks it for its value, for its derivatives with respect to the unknowns of
the circuit, and for its response to small changes of them.

## Contents

* `BuildOptions` — how a behavior is to be built
* `Behavior.build`, `Behavior.parse` — from an expression or a text: derive, check and compile
* `Behavior.value`, `Behavior.derivative`, `Behavior.jacobian`, `Behavior.smallSignal` — numbers at
  one setting of the sources
* `Behavior.callValue`, `Behavior.callDerivative`, `Behavior.callJacobian`,
  `Behavior.callSmallSignal` — the same, with the behavior as the call leaves it
-/

namespace CircuitExpr

/-! ## Options and errors -/

/-- How a behavior is to be built. What is not given is taken from the environment. -/
structure BuildOptions (K : Type) where
  backend : Backend
  comparison : Option NameComparison
  tolerances : Option (Tolerances K)
  /-- Adds functions for this behavior alone. -/
  hook : Option (FunctionTable K → FunctionTable K)
  /-- The variables to derive by; otherwise all unknowns of the expression. -/
  targets : Option (List Variable)

/-- Native code, and everything else from the environment. -/
def BuildOptions.default {K : Type} : BuildOptions K := ⟨.jit, none, none, none, none⟩

/-- Why a behavior cannot be built. -/
inductive BehaviorError where
  /-- The text is no expression. -/
  | text (cause : ReadError)
  | expression (e : ExpressionError)
  /-- The options ask for another comparison of names than the bindings have. -/
  | comparisonMismatch (requested bindings : NameComparison)
deriving DecidableEq

/-- The message. -/
def BehaviorError.message : BehaviorError → String
  | text _ => "failed to build expression tree"
  | expression e => e.message
  | comparisonMismatch requested bindings =>
    "options compare names " ++ requested.inspect ++ " but the bindings compare them "
      ++ bindings.inspect

/-! ## Building -/

/-- An expression and its derivatives, ready to be evaluated. -/
structure Behavior (K D σ : Type) where
  expr : Expr K
  value : Evaluator D σ
  expressions : VariableMap (Expr K)
  derivatives : VariableMap (Evaluator D σ)

namespace Behavior

section Building

variable {K D σ : Type} [Literal K] [Domain D K]

/-- The environment with the functions and tolerances of the options. -/
def prepare (env : Environment K D σ) (options : BuildOptions K) : Environment K D σ :=
  { env with
    functions := (options.hook.getD id) env.functions
    tolerances := options.tolerances.getD env.tolerances }

/-- The variables to derive by. -/
def targetsOf (c : NameComparison) (e : Expr K) (options : BuildOptions K) : List Variable :=
  options.targets.getD (e.unknowns c)

/-- Makes an expression and its derivatives ready. -/
def compile (env : Environment K D σ) (e : Expr K) (backend : Backend)
    (targets : List Variable) : Except ExpressionError (Behavior K D σ) := do
  let value ← Evaluator.build env e backend
  let expressions ← e.deriveTargets env.functions env.bindings.comparison targets
  let derivatives ← expressions.mapM fun _ d => Evaluator.build env d backend
  return ⟨e, value, expressions, derivatives⟩

/-- Builds the behavior of an expression. -/
def build (env : Environment K D σ) (e : Expr K) (options : BuildOptions K) :
    Except BehaviorError (Behavior K D σ) :=
  let env := prepare env options
  let bound := env.bindings.comparison
  let requested := options.comparison.getD bound
  if requested ≠ bound then .error (.comparisonMismatch requested bound)
  else (compile env e options.backend (targetsOf bound e options)).mapError .expression

/-- Builds the behavior of a text. -/
def parse {D σ : Type} [Domain D Float] (env : Environment Float D σ) (text : String)
    (options : BuildOptions Float) : Except BehaviorError (Behavior Float D σ) :=
  match Expr.parse text with
  | .error cause => .error (.text cause)
  | .ok e => build env e options

end Building

/-! ## Numbers -/

section Numbers

variable {K D σ : Type} [Literal K] [Scalar D K]

/-- The backend that is in use. -/
def backend (b : Behavior K D σ) : Backend := b.value.backend

/-- The variables derived by, each once. -/
def targets (b : Behavior K D σ) : List Variable := b.expressions.keys

/-- The value, and the behavior for the next call. -/
def callValue (b : Behavior K D σ) (setting : Setting D) : StateM σ (D × Behavior K D σ) := do
  let (x, value) ← b.value.call setting
  return (x, { b with value := value })

/--
The derivative with respect to a variable, if it was derived by, and the behavior for the next
call.
-/
def callDerivative (b : Behavior K D σ) (setting : Setting D) (v : Variable) :
    StateM σ (Option D × Behavior K D σ) := do
  match b.derivatives.get? v with
  | some d =>
    let (x, d) ← d.call setting
    return (some x, { b with derivatives := b.derivatives.replace v d })
  | none => return (none, b)

/-- The values of several evaluators in order, and the evaluators for the next call. -/
def callEach (setting : Setting D) :
    List (Variable × Evaluator D σ) → StateM σ (List D × List (Variable × Evaluator D σ))
  | [] => return ([], [])
  | (v, d) :: rest => do
    let (x, d) ← d.call setting
    let (xs, rest) ← callEach setting rest
    return (x :: xs, (v, d) :: rest)

/-- The derivatives with respect to all targets, and the behavior for the next call. -/
def callJacobian (b : Behavior K D σ) (setting : Setting D) :
    StateM σ (List D × Behavior K D σ) := do
  let (xs, entries) ← callEach setting b.derivatives.entries
  return (xs, { b with derivatives := { b.derivatives with entries := entries } })

/-- The derivative with respect to a variable, if it was derived by. -/
def derivative (b : Behavior K D σ) (setting : Setting D) (v : Variable) :
    StateM σ (Option D) := do
  return (← b.callDerivative setting v).1

/-- The derivatives with respect to all targets. -/
def jacobian (b : Behavior K D σ) (setting : Setting D) : StateM σ (List D) := do
  return (← b.callJacobian setting).1

/--
The response to small changes of the targets, and the evaluators for the next call. The sum goes on
from target to target and stops at the first one whose change is not given; from there on nothing
is evaluated.
-/
def respond (excitation : Bindings) (setting : Setting D) :
    D → List (Variable × Evaluator D σ) →
      StateM σ (Except ExpressionError D × List (Variable × Evaluator D σ))
  | total, [] => return (.ok total, [])
  | total, (v, d) :: rest =>
    match excitation.get? v with
    | none => return (.error (.unboundVariable v.text), (v, d) :: rest)
    | some source => do
      let (slope, d) ← d.call setting
      let (x, rest) ← respond excitation setting (total + slope * setting source) rest
      return (x, (v, d) :: rest)

/-- The response to the changes that `excitation` gives, and the behavior for the next call. -/
def callSmallSignal (b : Behavior K D σ) (excitation : Bindings) (setting : Setting D) :
    StateM σ (Except ExpressionError D × Behavior K D σ) := do
  let (x, entries) ← respond excitation setting Scalar.zero b.derivatives.entries
  return (x, { b with derivatives := { b.derivatives with entries := entries } })

/-- The response to the changes that `excitation` gives. -/
def smallSignal (b : Behavior K D σ) (excitation : Bindings) (setting : Setting D) : Run σ D :=
  ExceptT.mk do return (← b.callSmallSignal excitation setting).1

end Numbers

end Behavior

end CircuitExpr
