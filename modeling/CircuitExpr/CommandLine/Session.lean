import CircuitExpr.Behavior.Write
import CircuitExpr.CommandLine.Arguments
import CircuitExpr.Native.Listing

/-!
# What the command line does

An expression is shown with its variables and its derivatives. With assignments of values to
variables it is evaluated as well, and its native code is listed on request. The output up to a
failure stands.
-/

namespace CircuitExpr.CommandLine

/-! ## Assignments -/

/-- Why a text is no assignment. -/
inductive AssignmentError where
  | noEquals (text : String)
  /-- Neither side can be read. -/
  | unreadable (e : ReadError)
  | notVariable (text : String)
  | notNumber (text : String)
deriving DecidableEq

/-- The message. -/
def AssignmentError.message : AssignmentError → String
  | noEquals text => "expected NAME=VALUE, got '" ++ text ++ "'"
  | unreadable e => e.message
  | notVariable text => "'" ++ text ++ "' is not a variable"
  | notNumber text => "'" ++ text ++ "' is not a number"

/-- The expression of a text, without the blanks around it. -/
def readTrimmed (s : String) : Except AssignmentError (Expr Float) :=
  (Expr.parse (String.ofList (Text.trim s.toList))).mapError .unreadable

/-- The variable that a text names. -/
def readVariable (s : String) : Except AssignmentError Variable :=
  match readTrimmed s with
  | .error e => .error e
  | .ok (.var v) => .ok v
  | .ok e => .error (.notVariable e.text)

/-- The number that a text is. -/
def readNumber (s : String) : Except AssignmentError Float :=
  match readTrimmed s with
  | .error e => .error e
  | .ok (.const x) => .ok x
  | .ok _ => .error (.notNumber s)

/-- Reads `NAME=VALUE`. -/
def readAssignment (s : String) : Except AssignmentError (Variable × Float) := do
  match splitEquals s.toList with
  | (_, none) => .error (.noEquals s)
  | (name, some value) =>
    let v ← readVariable name
    let x ← readNumber value
    return (v, x)

/-! ## Sessions -/

/-- A computation that writes output and may fail with a message. -/
abbrev Session := ExceptT String (StateM String)

/-- Writes a line. -/
def say (line : String) : Session Unit := modify fun out => out ++ line ++ "\n"

/-- A result, or failure with its message. -/
def attempt {A E : Type} (message : E → String) (x : Except E A) : Session A :=
  match x with
  | .ok a => pure a
  | .error e => throw (message e)

/-- Bound variables with the sources they read. -/
structure Bound where
  sources : Sources Float
  bindings : Bindings

namespace Bound

/-- Nothing bound. -/
def empty : Bound := ⟨.empty, .empty .caseInsensitive⟩

/-- Binds a variable to a source of its own. -/
def bind (b : Bound) (v : Variable) (x : Float) : Bound :=
  ⟨b.sources.add x, b.bindings.bind v b.sources.next⟩

/-- Binds to zero those of the variables that are not bound. -/
def withZeros (b : Bound) (vs : List Variable) : Bound :=
  vs.foldl (fun b v => if b.bindings.contains v then b else b.bind v 0) b

end Bound

/-- Shows an expression, its variables and its derivatives. -/
def describe (e : Expr Float) : Session Unit := do
  say ("Expression: " ++ e.text)
  say ("Variables: " ++ Text.commaSeparated ((e.vars .caseInsensitive).map Variable.text))
  let derivatives ← attempt ExpressionError.message
    (e.deriveTargets .library .caseInsensitive (e.unknowns .caseInsensitive))
  modify fun out => out ++ Behavior.derivativeLines false derivatives

/-- Binds the variables of assignments. -/
def bindAll : List String → Bound → Session Bound
  | [], b => pure b
  | s :: rest, b => do
    let (v, x) ← attempt AssignmentError.message (readAssignment s)
    bindAll rest (b.bind v x)

/-- Lists the native code of an expression; variables without a value are taken as zero. -/
def list (e : Expr Float) (b : Bound) : Session Unit := do
  let env : Environment Float Float Unit :=
    .ofBindings (b.withZeros (e.vars .caseInsensitive)).bindings
  let code ← attempt ExpressionError.message (NativeCode.compile env e)
  say ("CLIF IR:\n" ++ code.listing)

/-- Shows the value of an expression and of its derivatives. -/
def evaluate (e : Expr Float) (b : Bound) (backend : Backend) : Session Unit := do
  let env : Environment Float Float Unit := .ofBindings b.bindings
  let behavior ← attempt BehaviorError.message
    (Behavior.build env e { BuildOptions.default with backend := backend })
  let setting := b.sources.setting 0
  let (value, _) := (behavior.value.value setting).run ()
  let (slopes, _) := (behavior.jacobian setting).run ()
  say ("Value (" ++ behavior.backend.text ++ "): " ++ Decimal.display value)
  (behavior.targets.zip slopes).forM fun entry =>
    say ("  " ++ Text.slope entry.1 ++ " = " ++ Decimal.display entry.2)

/-- Does what the arguments ask for. -/
def perform (a : Arguments) : Session Unit := do
  let e ← attempt ReadError.message (Expr.parse a.expression)
  describe e
  let b ← bindAll a.assignments .empty
  if a.clif then list e b
  if !a.assignments.isEmpty then evaluate e b a.backend

/-! ## The program -/

/-- How a run of the program ends. -/
structure Outcome where
  code : UInt32
  out : String
  err : String

/-- The help text. -/
def helpText : String :=
  "Inspect, differentiate and evaluate behavioral source expressions\n\n"
    ++ "Usage: behave [OPTIONS] <EXPRESSION>\n\n"
    ++ "Arguments:\n"
    ++ "  <EXPRESSION>  Expression to process, e.g. \"v(a) * 10k + i(vsense)\"\n\n"
    ++ "Options:\n"
    ++ "      --set <NAME=VALUE>   Binds a variable for evaluation, e.g. "
    ++ "\x60--set v(a)=1.5\x60 or \x60--set gain=10k\x60\n"
    ++ "      --backend <BACKEND>  Backend used for evaluation [default: jit] "
    ++ "[possible values: interpreted, program, jit]\n"
    ++ "      --clif               Prints the Cranelift IR of the value function\n"
    ++ "  -h, --help               Print help\n"
    ++ "  -V, --version            Print version\n"

/-- The message for arguments that make no sense. -/
def usageText : String :=
  "Usage: behave [OPTIONS] <EXPRESSION>\n\nFor more information, try '--help'.\n"

/-- Runs the program. -/
def run (arguments : List String) : Outcome :=
  match read arguments with
  | .help => ⟨0, helpText, ""⟩
  | .version => ⟨0, "behave 0.1.0\n", ""⟩
  | .usage => ⟨2, "", usageText⟩
  | .run a =>
    match (perform a).run.run "" with
    | (.ok _, out) => ⟨0, out, ""⟩
    | (.error message, out) => ⟨1, out, "Error: " ++ message ++ "\n"⟩

end CircuitExpr.CommandLine
