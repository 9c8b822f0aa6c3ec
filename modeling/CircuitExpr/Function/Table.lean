import CircuitExpr.Expr.Basic
import CircuitExpr.Expr.Error
import CircuitExpr.Text.LowerCase

/-!
# Function tables

The functions that an expression may call. A table says for each name how many arguments the
function takes, what computes it, and how its slope is found. Names are found in any case, and
they are listed in their order.

## Contents

* `Native` — what computes a function; two names with the same one share it
* `FunctionTable` — `register`, `remove`, `get?`
* `FunctionTable.resolve` — the definition for a call, or what is wrong with the call
-/

namespace CircuitExpr

/-- The functions of the library. -/
inductive LibraryFunction where
  | abs
  | sgn
  | sqrt
  | exp
  | log
  | ln
  | log10
  | sin
  | cos
  | tan
  | asin
  | acos
  | atan
  | sinh
  | cosh
  | tanh
  | floor
  | ceil
  | round
  | u
  | min
  | max
  | pow
  | pwr
  | limit
deriving DecidableEq

/-- What computes a function: the library, or a host, which numbers its functions. -/
inductive Native where
  | library (f : LibraryFunction)
  | host (id : Nat)
deriving DecidableEq

/-- The slopes of a function with respect to each argument, as expressions in the arguments. -/
abbrev DerivativeRule (K : Type) := List (Expr K) → List (Expr K)

/-- A registered function. -/
structure FunctionDefinition (K : Type) where
  arity : Arity
  native : Native
  rule : Option (DerivativeRule K)

/-- The outline. -/
def FunctionDefinition.inspect {K : Type} (d : FunctionDefinition K) : String :=
  Text.record "FunctionDefinition"
    [("arity", d.arity.inspect), ("differentiable", Text.truth d.rule.isSome)]

/-- The registered functions under their names in lower case, sorted. -/
structure FunctionTable (K : Type) where
  entries : List (String × FunctionDefinition K)

namespace FunctionTable

variable {K : Type}

/-- No function. -/
def empty : FunctionTable K := ⟨[]⟩

/-- Puts a definition at its place among sorted names, or in place of the one of this name. -/
def put (name : String) (d : FunctionDefinition K) :
    List (String × FunctionDefinition K) → List (String × FunctionDefinition K)
  | [] => [(name, d)]
  | entry :: rest =>
    if name < entry.1 then (name, d) :: entry :: rest
    else if name == entry.1 then (name, d) :: rest
    else entry :: put name d rest

/-- Registers a function; one that has the name already is replaced. -/
def register (t : FunctionTable K) (name : String) (d : FunctionDefinition K) :
    FunctionTable K :=
  ⟨put (Text.lower name) d t.entries⟩

/-- The definition of a name. -/
def get? (t : FunctionTable K) (name : String) : Option (FunctionDefinition K) :=
  t.entries.lookup (Text.lower name)

/-- Takes a name out. -/
def remove (t : FunctionTable K) (name : String) : FunctionTable K :=
  ⟨t.entries.filter fun entry => entry.1 != Text.lower name⟩

def contains (t : FunctionTable K) (name : String) : Bool := (t.get? name).isSome

/-- The names in their order. -/
def names (t : FunctionTable K) : List String := t.entries.map Prod.fst

/-- The definition for a call with this many arguments. -/
def resolve (t : FunctionTable K) (name : String) (count : Nat) :
    Except ExpressionError (FunctionDefinition K) :=
  match t.get? name with
  | none => .error (.unknownFunction name)
  | some d => if d.arity.accepts count then .ok d else .error (.arityMismatch name d.arity count)

/-- The outline. -/
def inspect (t : FunctionTable K) : String :=
  Text.mapping (t.entries.map fun entry => (Text.quote entry.1, entry.2.inspect))

end FunctionTable

end CircuitExpr
