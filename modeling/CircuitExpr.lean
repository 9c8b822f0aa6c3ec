import CircuitExpr.Main
import CircuitExpr.Behavior.Write
import CircuitExpr.Decimal.Read
import CircuitExpr.Grammar.Cache
import CircuitExpr.Decimal.Write
import CircuitExpr.Derivative.Derive
import CircuitExpr.Native.Execute
import CircuitExpr.Program.Run
import CircuitExpr.Text.Blank
import CircuitExpr.Text.Letter
import CircuitExpr.Proofs.Program.CompileComplex
import CircuitExpr.Proofs.Derivative.Absent
import CircuitExpr.Proofs.Behavior.Build
import CircuitExpr.Proofs.Derivative.Exact
import CircuitExpr.Proofs.Grammar.Powers
import CircuitExpr.Proofs.Behavior.Checks
import CircuitExpr.Proofs.Native.Refinement
import CircuitExpr.Proofs.Grammar.WrittenForm
import CircuitExpr.Proofs.Grammar.Hygiene
import CircuitExpr.Proofs.Variable.Insertion
import CircuitExpr.Proofs.Grammar.Cache
import CircuitExpr.Proofs.Evaluation.Purity
import CircuitExpr.Proofs.Derivative.ShortCircuit
import CircuitExpr.Proofs.Behavior.Steady
import CircuitExpr.Proofs.Behavior.Session
import CircuitExpr.Proofs.Simplify.Exactness
import CircuitExpr.Proofs.Simplify.Normal
import CircuitExpr.Proofs.Behavior.Predictions
import CircuitExpr.Proofs.Native.Inventory
import CircuitExpr.Proofs.Derivative.Targets
import CircuitExpr.Proofs.Native.References
import CircuitExpr.Proofs.Function.Selections
import CircuitExpr.Proofs.Derivative.Powers
import CircuitExpr.Proofs.Variable.Congruence
import CircuitExpr.Proofs.Variable.Occurrences
import CircuitExpr.Proofs.Behavior.SmallSignal
import CircuitExpr.Proofs.Grammar.PowerTrees
import CircuitExpr.Proofs.Grammar.Segmentation
import CircuitExpr.Proofs.Numeric.Equality
import CircuitExpr.Proofs.Evaluation.RealAxis
import CircuitExpr.Proofs.CommandLine.Assignments
