/-!
# Sets of code points

A set of code points is kept as the sorted list of its ranges, both ends included.
-/

namespace CircuitExpr.Text

/-- Membership in a sorted list of ranges; the search stops at the first range beyond `n`. -/
def inRanges : List (Nat × Nat) → Nat → Bool
  | [], _ => false
  | (first, last) :: rest, n =>
    if n < first then false else if n ≤ last then true else inRanges rest n

end CircuitExpr.Text
