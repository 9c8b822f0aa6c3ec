import CircuitExpr.Evaluation.Environment
import CircuitExpr.Evaluation.Operation
import CircuitExpr.Expr.Write

/-!
# Evaluation

The value of an expression at one setting of the sources. Operands are evaluated from left to
right, also those of logical operators; of a conditional only the value that is chosen. A call is
resolved before its arguments are evaluated.

## Contents

* `Expr.evaluate` — the value
* `Expr.validate` — the checks of evaluation alone: no source is read, no function is called, and
  both values of a conditional are looked at
* `Expr.evaluate_call_of_ok`, `Expr.validateEach_eq_ok_iff`, … — calls that are resolved, and checks
  that pass
-/

namespace CircuitExpr

variable {K D σ : Type} [Literal K] [Scalar D K]

/-- A result as a computation that leaves the state of the host alone. -/
def Run.ofExcept {α : Type} (x : Except ExpressionError α) : Run σ α := ExceptT.mk (pure x)

/-- A call as a computation that cannot fail. -/
def Run.ofCall {α : Type} (x : StateM σ α) : Run σ α := ExceptT.mk (x >>= fun a => pure (.ok a))

/-- What is refused under a condition succeeds without it. -/
theorem ite_error_eq_ok {ε α : Type} {c : Bool} {e : ε} {x : Except ε α} {a : α} :
    (if c then .error e else x) = .ok a ↔ c = false ∧ x = .ok a := by
  cases c with
  | true => simp
  | false => simp

namespace Expr

mutual

/-- The value of an expression. -/
def evaluate (env : Environment K D σ) (setting : Setting D) : Expr K → Run σ D
  | .const value => pure (Scalar.ofReal value)
  | .var v =>
    match env.bindings.get? v with
    | some source => pure (setting source)
    | none => Run.ofExcept (.error (.unboundVariable v.text))
  | .unary op operand => do return op.apply (← evaluate env setting operand)
  | .binary op left right => do
    let x ← evaluate env setting left
    let y ← evaluate env setting right
    Run.ofExcept (op.apply env.tolerances x y)
  | .cond condition whenTrue whenFalse => do
    if Scalar.isTrue (← evaluate env setting condition) then evaluate env setting whenTrue
    else evaluate env setting whenFalse
  | .call name arguments => do
    let d ← Run.ofExcept (env.functions.resolve name arguments.length)
    let values ← evaluateEach env setting arguments
    Run.ofCall (env.natives d.native values)
  | .ext name arguments =>
    match env.extension with
    | none => Run.ofExcept (.error (.unrecognizedNode (Expr.ext name arguments).text))
    | some handler => do handler name (← evaluateEach env setting arguments)

/-- The values of several expressions, from left to right. -/
def evaluateEach (env : Environment K D σ) (setting : Setting D) : List (Expr K) → Run σ (List D)
  | [] => pure []
  | e :: rest => do
    let x ← evaluate env setting e
    return x :: (← evaluateEach env setting rest)

end

section Calls

variable {env : Environment K D σ} {setting : Setting D}

/-- A call that can be resolved is one of this function. -/
theorem evaluate_call_of_ok {name : String} {arguments : List (Expr K)}
    {d : FunctionDefinition K} (hd : env.functions.resolve name arguments.length = .ok d) :
    evaluate env setting (.call name arguments) =
      evaluateEach env setting arguments >>= fun values =>
        Run.ofCall (env.natives d.native values) := by
  rw [evaluate, hd]
  exact pure_bind d _

theorem evaluate_call_of_error {name : String} {arguments : List (Expr K)} {x : ExpressionError}
    (hd : env.functions.resolve name arguments.length = .error x) :
    evaluate env setting (.call name arguments) = Run.ofExcept (.error x) := by
  rw [evaluate, hd]
  rfl

end Calls

/-- Whether an operator is one that the domain lacks. -/
def lacks (D : Type) {K : Type} [Scalar D K] (op : BinaryOp) : Bool :=
  op.isOrdering && !Scalar.ordered D

mutual

/-- The checks of evaluation, in its order. -/
def validate (env : Environment K D σ) : Expr K → Except ExpressionError Unit
  | .const _ => .ok ()
  | .var v => if env.bindings.contains v then .ok () else .error (.unboundVariable v.text)
  | .unary _ operand => validate env operand
  | .binary op left right =>
    if lacks D op then .error (.unsupportedOperator op (Scalar.domain D))
    else do
      validate env left
      validate env right
  | .cond condition whenTrue whenFalse => do
    validate env condition
    validate env whenTrue
    validate env whenFalse
  | .call name arguments => do
    let _ ← env.functions.resolve name arguments.length
    validateEach env arguments
  | .ext name arguments =>
    if env.extension.isNone then .error (.unrecognizedNode (Expr.ext name arguments).text)
    else validateEach env arguments

def validateEach (env : Environment K D σ) : List (Expr K) → Except ExpressionError Unit
  | [] => .ok ()
  | e :: rest => do
    validate env e
    validateEach env rest

end

section Checks

variable {env : Environment K D σ}

theorem validateEach_eq_ok_iff {es : List (Expr K)} :
    validateEach env es = .ok () ↔ ∀ e ∈ es, validate env e = .ok () := by
  induction es with
  | nil => simp [validateEach]
  | cons e rest ih =>
    rw [validateEach, List.forall_mem_cons, ← ih]
    cases validate env e with
    | error x => exact ⟨nofun, fun h => nomatch h.1⟩
    | ok => exact ⟨fun h => ⟨rfl, h⟩, fun h => h.2⟩

theorem validate_ext_eq_ok {name : String} {arguments : List (Expr K)} :
    validate env (.ext name arguments) = .ok () ↔
      env.extension.isNone = false ∧ ∀ e ∈ arguments, validate env e = .ok () := by
  rw [validate, ite_error_eq_ok, validateEach_eq_ok_iff]

end Checks

end Expr

end CircuitExpr
