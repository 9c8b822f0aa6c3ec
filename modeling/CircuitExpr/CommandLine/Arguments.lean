import CircuitExpr.Behavior.Evaluator

/-!
# Arguments of the command line

```text
behave [--set NAME=VALUE]… [--backend BACKEND] [--clif] [--] EXPRESSION
```

An option may stand before or behind the expression, and its value behind it or behind an equals
sign. Behind `--` nothing is an option any more. Whatever does not fit is a usage error; a request
for help counts as soon as it is met.
-/

namespace CircuitExpr.CommandLine

/-- What the command line asks to be done with an expression. -/
structure Arguments where
  expression : String
  assignments : List String
  backend : Backend
  /-- Whether to list the native code. -/
  clif : Bool

/-- What the command line asks for. -/
inductive Request where
  | help
  | version
  | run (arguments : Arguments)
  /-- The arguments make no sense. -/
  | usage

/-- What has been read of the arguments. -/
structure Progress where
  expression : Option String
  /-- The assignments, the last one first. -/
  assignments : List String
  backend : Option Backend
  clif : Bool

/-- Nothing read yet. -/
def Progress.start : Progress := ⟨none, [], none, false⟩

/-- The request when all arguments are read. -/
def Progress.finish (p : Progress) : Request :=
  match p.expression with
  | none => .usage
  | some expression =>
    .run ⟨expression, p.assignments.reverse, p.backend.getD .jit, p.clif⟩

/-- Reads the expression; there is only one. -/
def Progress.addExpression (p : Progress) (s : String) : Option Progress :=
  match p.expression with
  | none => some { p with expression := some s }
  | some _ => none

/-- The options that take a value. -/
inductive ValueOption where
  | set
  | backend

/-- The backend of a name. -/
def backend? (name : String) : Option Backend :=
  [Backend.interpreted, .program, .jit].find? fun b => b.text == name

/-- Reads the value of an option. Only assignments may be repeated. -/
def Progress.addValue (p : Progress) (o : ValueOption) (value : String) : Option Progress :=
  match o with
  | .set => some { p with assignments := value :: p.assignments }
  | .backend =>
    match p.backend, backend? value with
    | none, some b => some { p with backend := some b }
    | _, _ => none

/-- Reads the option for the listing, which may not be repeated. -/
def Progress.addClif (p : Progress) : Option Progress :=
  if p.clif then none else some { p with clif := true }

/-- What an argument is by its look. -/
inductive Look where
  | value (s : String)
  /-- The end of options. -/
  | separator
  /-- A long option and the value behind its equals sign. -/
  | long (name : String) (attached : Option String)
  /-- A short option, or several together. -/
  | short (first : Char)

/-- The text before and behind the first equals sign. -/
def splitEquals (s : List Char) : String × Option String :=
  match s.dropWhile (· != '=') with
  | [] => (String.ofList s, none)
  | _ :: value => (String.ofList (s.takeWhile (· != '=')), some (String.ofList value))

/-- What an argument is by its look; a single dash is a value. -/
def look (s : String) : Look :=
  match s.toList with
  | ['-', '-'] => .separator
  | '-' :: '-' :: rest => let (name, attached) := splitEquals rest; .long name attached
  | '-' :: c :: _ => .short c
  | _ => .value s

/-- The option that takes a value and has this name. -/
def valueOption? (name : String) : Option ValueOption :=
  if name == "set" then some .set else if name == "backend" then some .backend else none

/-- Reads all remaining arguments as values. -/
def readValues (p : Progress) : List String → Request
  | [] => p.finish
  | s :: rest =>
    match p.addExpression s with
    | none => .usage
    | some p => readValues p rest

/-- Reads an option without value; the progress, or the request that it makes. -/
def readFlag (p : Progress) (name : String) : Except Request Progress :=
  if name == "help" then .error .help
  else if name == "version" then .error .version
  else if name == "clif" then
    match p.addClif with
    | some p => .ok p
    | none => .error .usage
  else .error .usage

/-- Reads the arguments; `pending` is the option whose value comes next. -/
def readFrom (p : Progress) : Option ValueOption → List String → Request
  | none, [] => p.finish
  | some _, [] => .usage
  | some o, s :: rest =>
    match look s with
    | .value value =>
      match p.addValue o value with
      | some p => readFrom p none rest
      | none => .usage
    | _ => .usage
  | none, s :: rest =>
    match look s with
    | .value value =>
      match p.addExpression value with
      | some p => readFrom p none rest
      | none => .usage
    | .separator => readValues p rest
    | .short c => if c == 'h' then .help else if c == 'V' then .version else .usage
    | .long name attached =>
      match valueOption? name, attached with
      | some o, some value =>
        match p.addValue o value with
        | some p => readFrom p none rest
        | none => .usage
      | some o, none => readFrom p (some o) rest
      | none, some _ => .usage
      | none, none =>
        match readFlag p name with
        | .ok p => readFrom p none rest
        | .error request => request

/-- The request that the arguments make. -/
def read (arguments : List String) : Request := readFrom .start none arguments

end CircuitExpr.CommandLine
