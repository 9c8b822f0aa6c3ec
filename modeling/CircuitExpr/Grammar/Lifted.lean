import CircuitExpr.Grammar.Segment

/-!
# Texts with placeholders

Numbers and references are replaced by names made up for them, `__lit0`, `__lit1`, … and
`__ref0`, `__ref1`, …, counted separately from zero. What is left is a text of names, operators
and parentheses, together with what the names stand for.
-/

namespace CircuitExpr

/-- A text without numbers and references, and what was taken out of it, in order. -/
structure Lifted where
  text : List Char
  literals : List Float
  references : List (Expr Float)

namespace Lifted

/-- How the names of numbers begin. -/
def literalStem : List Char := "__lit".toList

/-- How the names of references begin. -/
def referenceStem : List Char := "__ref".toList

/-- The name of the entry with an index. -/
def placeholder (stem : List Char) (index : Nat) : List Char := stem ++ Nat.toDigits 10 index

/-- The text of segments, the next number and the next reference being counted. -/
def write : Nat → Nat → List Segment → List Char
  | _, _, [] => []
  | l, r, .word chars :: rest => chars ++ write l r rest
  | l, r, .char c :: rest => c :: write l r rest
  | l, r, .literal _ _ :: rest => placeholder literalStem l ++ write (l + 1) r rest
  | l, r, .reference _ _ :: rest => placeholder referenceStem r ++ write l (r + 1) rest

/-- The value of a number. -/
def literal? : Segment → Option Float
  | .literal _ value => some value
  | _ => none

/-- The expression of a reference. -/
def reference? : Segment → Option (Expr Float)
  | .reference _ e => some e
  | _ => none

/-- Replaces numbers and references. -/
def ofSegments (segments : List Segment) : Lifted :=
  ⟨write 0 0 segments, segments.filterMap literal?, segments.filterMap reference?⟩

/-- Takes numbers and references out of a text. -/
def ofText (s : List Char) : Except ReadError Lifted := (Segment.ofText s).map ofSegments

/-! ## Reading placeholders back -/

/-- What follows a stem in a name that begins with it. -/
def afterStem? : List Char → List Char → Option (List Char)
  | [], name => some name
  | _ :: _, [] => none
  | s :: stem, c :: name => if s == c then afterStem? stem name else none

/-- The index in a name, if the name is a stem and an index of at most 64 binary digits. -/
def index? (stem name : List Char) : Option Nat :=
  match afterStem? stem name with
  | some (d :: ds) =>
    let index := Decimal.natural (d :: ds)
    if (d :: ds).all Char.isDigit && index ≤ 0xffffffffffffffff then some index else none
  | _ => none

/-- The expression that a name stands for: an entry, or a parameter of that name. -/
def expand (lifted : Lifted) (name : List Char) : Except ReadError (Expr Float) :=
  match index? literalStem name with
  | some index =>
    match lifted.literals[index]? with
    | some value => .ok (.const value)
    | none => .error (.literal (String.ofList name))
  | none =>
    match index? referenceStem name with
    | some index =>
      match lifted.references[index]? with
      | some e => .ok e
      | none => .error (.reference (String.ofList name))
    | none => .ok (.var (.parameter (String.ofList name)))

end Lifted

end CircuitExpr
