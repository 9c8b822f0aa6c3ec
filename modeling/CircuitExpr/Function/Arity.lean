import CircuitExpr.Text.Record

/-!
# Argument counts
-/

namespace CircuitExpr

/-- How many arguments a function takes. -/
inductive Arity where
  | exactly (n : Nat)
  | atLeast (n : Nat)
deriving DecidableEq

namespace Arity

/-- Whether a call with this many arguments is accepted. -/
def accepts : Arity → Nat → Bool
  | exactly n, count => count == n
  | atLeast n, count => n ≤ count

/-- The written form in messages. -/
def text : Arity → String
  | exactly n => toString n
  | atLeast n => "at least " ++ toString n

/-- The outline. -/
def inspect : Arity → String
  | exactly n => Text.applied "Exactly" [toString n]
  | atLeast n => Text.applied "AtLeast" [toString n]

end Arity

end CircuitExpr
