import CircuitExpr.Text.Record

/-!
# Variables

A behavioral element reads node voltages, branch currents and the parameters of its circuit. A
voltage or current may be asked for as a whole or by one quantity of its complex value, which is
written as a suffix: `v(out)`, `vdb(out)`, `ii(r1)`.
-/

namespace CircuitExpr

/-- What a variable names. -/
inductive VariableKind where
  | voltage
  | current
  | parameter
deriving DecidableEq

/-- What is asked of a voltage or current. -/
inductive Quantity where
  | value
  | real
  | imaginary
  | magnitude
  | phase
  | decibels
deriving DecidableEq

/-- A variable of an expression. -/
structure Variable where
  name : String
  kind : VariableKind
  quantity : Quantity
deriving DecidableEq

namespace VariableKind

/-- The place of a kind in the order of variables. -/
def rank : VariableKind → Nat
  | voltage => 0
  | current => 1
  | parameter => 2

def inspect : VariableKind → String
  | voltage => "Voltage"
  | current => "Current"
  | parameter => "Parameter"

end VariableKind

namespace Quantity

/-- The place of a quantity in the order of variables. -/
def rank : Quantity → Nat
  | value => 0
  | real => 1
  | imaginary => 2
  | magnitude => 3
  | phase => 4
  | decibels => 5

/-- The suffix of the reference word. -/
def suffix : Quantity → String
  | value => ""
  | real => "r"
  | imaginary => "i"
  | magnitude => "m"
  | phase => "p"
  | decibels => "db"

/-- The quantity with a given suffix. -/
def ofSuffix? (s : String) : Option Quantity :=
  if s == "" then some value
  else if s == "r" then some real
  else if s == "i" then some imaginary
  else if s == "m" then some magnitude
  else if s == "p" then some phase
  else if s == "db" then some decibels
  else none

def inspect : Quantity → String
  | value => "Value"
  | real => "Real"
  | imaginary => "Imaginary"
  | magnitude => "Magnitude"
  | phase => "Phase"
  | decibels => "Decibels"

end Quantity

namespace Variable

/-- The voltage of a node. -/
def voltage (name : String) : Variable := ⟨name, .voltage, .value⟩

/-- The current of a branch. -/
def current (name : String) : Variable := ⟨name, .current, .value⟩

/-- A parameter of the circuit. -/
def parameter (name : String) : Variable := ⟨name, .parameter, .value⟩

/-- Voltages and currents are what a circuit is solved for; parameters are given. -/
def isUnknown (v : Variable) : Bool := v.kind != .parameter

/-- The written form. The quantity of a parameter is not written. -/
def text (v : Variable) : String :=
  match v.kind with
  | .voltage => "v" ++ v.quantity.suffix ++ "(" ++ v.name ++ ")"
  | .current => "i" ++ v.quantity.suffix ++ "(" ++ v.name ++ ")"
  | .parameter => v.name

/-- The outline. -/
def inspect (v : Variable) : String :=
  Text.record "Variable"
    [("name", Text.quote v.name), ("kind", v.kind.inspect), ("quantity", v.quantity.inspect)]

end Variable

end CircuitExpr
