import CircuitExpr.Expr.Basic
import CircuitExpr.Variable.Identity

/-!
# The variables of an expression

## Contents

* `Expr.occurrences` — every occurrence of a variable, from left to right
* `Expr.vars` — each variable once, in the order and spelling of its first occurrence
* `Expr.dependsOn` — whether a variable occurs
* `Expr.unknowns`, `Expr.names` — the variables of certain kinds
-/

namespace CircuitExpr.Expr

variable {K : Type}

/-! ## Occurrences -/

mutual

/-- The variables in the order in which they stand. -/
def occurrences : Expr K → List Variable
  | .const _ => []
  | .var v => [v]
  | .unary _ operand => occurrences operand
  | .binary _ left right => occurrences left ++ occurrences right
  | .cond condition whenTrue whenFalse =>
    occurrences condition ++ occurrences whenTrue ++ occurrences whenFalse
  | .call _ arguments | .ext _ arguments => occurrencesAll arguments

def occurrencesAll : List (Expr K) → List Variable
  | [] => []
  | e :: rest => occurrences e ++ occurrencesAll rest

end

mutual

/-- Whether a variable occurs. -/
def dependsOn (c : NameComparison) (v : Variable) : Expr K → Bool
  | .const _ => false
  | .var w => c.same w v
  | .unary _ operand => dependsOn c v operand
  | .binary _ left right => dependsOn c v left || dependsOn c v right
  | .cond condition whenTrue whenFalse =>
    dependsOn c v condition || dependsOn c v whenTrue || dependsOn c v whenFalse
  | .call _ arguments | .ext _ arguments => anyDependsOn c v arguments

/-- Whether a variable occurs in one of several expressions. -/
def anyDependsOn (c : NameComparison) (v : Variable) : List (Expr K) → Bool
  | [] => false
  | e :: rest => dependsOn c v e || anyDependsOn c v rest

end

/-! ## Each variable once -/

/-- Drops every variable whose key has been seen, here or before. -/
def firstOccurrences (c : NameComparison) : List VariableKey → List Variable → List Variable
  | _, [] => []
  | seen, v :: rest =>
    if seen.contains (c.key v) then firstOccurrences c seen rest
    else v :: firstOccurrences c (c.key v :: seen) rest

/-- The variables, each once. -/
def vars (c : NameComparison) (e : Expr K) : List Variable :=
  firstOccurrences c [] e.occurrences

/-- The variables that a circuit is solved for. -/
def unknowns (c : NameComparison) (e : Expr K) : List Variable :=
  (e.vars c).filter Variable.isUnknown

/-- The names of the variables of one kind. -/
def names (kind : VariableKind) (c : NameComparison) (e : Expr K) : List String :=
  ((e.vars c).filter fun v => v.kind == kind).map Variable.name

end CircuitExpr.Expr
