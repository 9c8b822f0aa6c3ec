import CircuitExpr.CommandLine.Session

/-!
# The program

Inspects, differentiates and evaluates the expressions of behavioral circuit elements.
-/

/-- Runs the program on the arguments of its command line. -/
def main (arguments : List String) : IO UInt32 := do
  let outcome := CircuitExpr.CommandLine.run arguments
  (← IO.getStdout).putStr outcome.out
  (← IO.getStderr).putStr outcome.err
  return outcome.code
