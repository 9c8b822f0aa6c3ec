import CircuitExpr.Text.Quoted

/-!
# Outlines of values

How a value is shown for inspection: records with named fields, constructors with arguments,
lists and maps, each on one line.
-/

namespace CircuitExpr.Text

/-- The parts with a separator between them. -/
def commaSeparated (parts : List String) : String := ", ".intercalate parts

/-- A record: its name, and the name and outline of each field. -/
def record (name : String) (fields : List (String × String)) : String :=
  name ++ " \x7b " ++ commaSeparated (fields.map fun f => f.1 ++ ": " ++ f.2) ++ " \x7d"

/-- A constructor applied to arguments. -/
def applied (name : String) (arguments : List String) : String :=
  name ++ "(" ++ commaSeparated arguments ++ ")"

/-- A list. -/
def bracketed (items : List String) : String := "[" ++ commaSeparated items ++ "]"

/-- A map, in the order given. -/
def mapping (entries : List (String × String)) : String :=
  "\x7b" ++ commaSeparated (entries.map fun e => e.1 ++ ": " ++ e.2) ++ "\x7d"

/-- A value that may be missing. -/
def optional : Option String → String
  | none => "None"
  | some s => applied "Some" [s]

/-- A truth value. -/
def truth (b : Bool) : String := if b then "true" else "false"

end CircuitExpr.Text
