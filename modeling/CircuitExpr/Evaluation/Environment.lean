import CircuitExpr.Function.Library
import CircuitExpr.Variable.Bindings

/-!
# Environments

What an expression is evaluated in: the sources of its variables, the functions it may call, the
tolerances, and the functions and extension nodes that a host adds.

Functions of a host may keep a state of their own, of type `σ`. An evaluation passes it on from
call to call, so the order of calls is part of the result, and it is kept when the evaluation
fails.

## Contents

* `Environment` — what an expression is evaluated in
* `Native.call` — what the functions of the library do, those of the host being given
-/

namespace CircuitExpr

/-- A computation that may fail and may change the state of the host. -/
abbrev Run (σ : Type) := ExceptT ExpressionError (StateM σ)

/-- Evaluates extension nodes, given their name and the values of their arguments. -/
abbrev ExtensionHandler (D σ : Type) := String → List D → Run σ D

/-- What an expression is evaluated in. -/
structure Environment (K D σ : Type) where
  bindings : Bindings
  functions : FunctionTable K
  tolerances : Tolerances K
  /-- What every function does. -/
  natives : Native → List D → StateM σ D
  extension : Option (ExtensionHandler D σ)

/-- Calls a function, of the library or of the host. -/
def Native.call {K D σ : Type} [Literal K] [Scalar D K] (natives : Nat → List D → StateM σ D)
    (f : Native) (arguments : List D) : StateM σ D :=
  match f with
  | .library f => pure (f.apply arguments)
  | .host id => natives id arguments

/-- A host says what its own functions do, by their numbers; the library keeps its meaning. -/
instance {K D σ : Type} [Literal K] [Scalar D K] :
    Coe (Nat → List D → StateM σ D) (Native → List D → StateM σ D) :=
  ⟨fun natives f => f.call natives⟩

namespace Environment

variable {K D σ : Type} [Literal K] [Scalar D K]

/-- The function library, the usual tolerances and nothing from a host. -/
def ofBindings (bindings : Bindings) : Environment K D σ :=
  { bindings := bindings
    functions := .library
    tolerances := .default
    natives := Native.call fun _ _ => pure Scalar.undefined
    extension := none }

end Environment

end CircuitExpr
