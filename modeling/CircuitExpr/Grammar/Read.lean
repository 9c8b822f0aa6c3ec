import CircuitExpr.Grammar.Lifted
import CircuitExpr.Grammar.OperatorTree

/-!
# From texts to expressions

An operator tree becomes an expression, and two things are put right on the way.

* Operator trees group powers to the left and let them bind more strongly than a minus sign in
  front. Expressions group powers to the right and let the sign bind more strongly: `-2 ^ 3 ^ 2`
  is `(-2) ^ (3 ^ 2)`. A row of powers is taken apart into its operands, and the minus signs in
  front of it are given to the first of them. A group in parentheses is no part of a row.
* `if` and `xor` are written as calls.

How a tree is read depends on where it stands: behind minus signs, in a row of powers, or as the
arguments of a call. Its `Reading` has the answer for each place, and is put together from the
readings of its children alone.
-/

namespace CircuitExpr

namespace Operator

/-- The outline of an assignment. -/
def inspectAssignment : Assignment → String
  | .plain => "Assign"
  | .add => "AddAssign"
  | .sub => "SubAssign"
  | .mul => "MulAssign"
  | .div => "DivAssign"
  | .mod => "ModAssign"
  | .exp => "ExpAssign"
  | .and => "AndAssign"
  | .or => "OrAssign"

end Operator

namespace Expr

/-- An expression with minus signs in front. -/
def negateTimes : Nat → Expr Float → Expr Float
  | 0, e => e
  | n + 1, e => .unary .minus (negateTimes n e)

/-- The power of a row of operands, grouped to the right. -/
def powers (base : Expr Float) : List (Expr Float) → Expr Float
  | [] => base
  | next :: rest => .binary .pow base (powers next rest)

/-- The power of a row of operands with minus signs in front of the first. -/
def signedPowers (negations : Nat) : List (Expr Float) → Except ReadError (Expr Float)
  | [] => .error (.operands "^" 2 0)
  | base :: rest => .ok (powers (negateTimes negations base) rest)

/-- The sum or product of a row of operands, grouped to the left. -/
def foldOperands (op : BinaryOp) : List (Expr Float) → Except ReadError (Expr Float)
  | first :: second :: rest =>
    .ok (rest.foldl (fun acc e => .binary op acc e) (.binary op first second))
  | es => .error (.operands op.symbol 2 es.length)

/-- A call, or what is written as one. -/
def ofCall (name : List Char) (arguments : List (Expr Float)) : Except ReadError (Expr Float) :=
  let word := Text.lowerChars name
  if word == "if".toList then
    match arguments with
    | [condition, whenTrue, whenFalse] => .ok (.cond condition whenTrue whenFalse)
    | _ => .error (.operands "if" 3 arguments.length)
  else if word == "xor".toList then
    match arguments with
    | [left, right] => .ok (.binary .xor left right)
    | _ => .error (.operands "xor" 2 arguments.length)
  else .ok (.call (String.ofList name) arguments)

end Expr

/-! ## Readings -/

/-- What a tree stands for, depending on the place. -/
structure Reading where
  /-- The expression with this many minus signs in front. -/
  signed : Nat → Except ReadError (Expr Float)
  /-- What it contributes to a row of powers whose base it is. -/
  factors : Except ReadError (List (Expr Float))
  /-- The arguments, where it stands behind the name of a function. -/
  arguments : Except ReadError (List (Expr Float))

namespace Reading

/-- The expression without minus signs in front. -/
def plain (r : Reading) : Except ReadError (Expr Float) := r.signed 0

/-- The expressions of children, the last child coming first and being read last. -/
def plainEach : List Reading → Except ReadError (List (Expr Float))
  | [] => .ok []
  | last :: before => do
    let es ← plainEach before
    return es ++ [← last.plain]

/-- A tree that is one expression wherever it stands. -/
def ofExpr (e : Except ReadError (Expr Float)) : Reading :=
  { signed := fun n => e.map (Expr.negateTimes n)
    factors := e.map ([·])
    arguments := e.map ([·]) }

/-- A tree that is no expression. -/
def ofError (e : ReadError) : Reading := ofExpr (.error e)

/-- A minus sign, which is passed on to the operand. -/
def ofNegation : List Reading → Reading
  | [operand] =>
    { signed := fun n => operand.signed (n + 1)
      factors := (operand.signed 1).map ([·])
      arguments := (operand.signed 1).map ([·]) }
  | children => ofError (.operands "-" 1 children.length)

/-- The operands of a row of powers, given the children of the last power. -/
def powerFactors : List Reading → Except ReadError (List (Expr Float))
  | [right, left] => do
    let es ← left.factors
    return es ++ [← right.plain]
  | children => .error (.operands "^" 2 children.length)

/-- A power, which goes on with the row of powers that its base is. -/
def ofPower (children : List Reading) : Reading :=
  let factors := powerFactors children
  { signed := fun n => factors.bind (Expr.signedPowers n)
    factors := factors
    arguments := (factors.bind (Expr.signedPowers 0)).map ([·]) }

/-- A group: the expression in it, whose minus signs and powers are its own. -/
def ofGroup (children : List Reading) : Reading :=
  let e :=
    match children with
    | [child] => child.plain
    | _ => .error (.group children.length)
  { ofExpr e with
    arguments :=
      match children with
      | [] => .ok []
      | [child] => child.arguments
      | _ => e.map ([·]) }

/-- A sequence, which is the arguments of a call and nothing else. -/
def ofSequence (children : List Reading) : Reading :=
  { ofError (.unsupportedOperator "Tuple") with arguments := plainEach children }

/-- An operator that takes two operands or more. -/
def ofFold (op : BinaryOp) (children : List Reading) : Reading :=
  if children.length < 2 then ofError (.operands op.symbol 2 children.length)
  else ofExpr ((plainEach children).bind (Expr.foldOperands op))

/-- An operator between two operands. -/
def ofBinary (op : BinaryOp) : List Reading → Reading
  | [right, left] => ofExpr do
    let l ← left.plain
    let r ← right.plain
    return .binary op l r
  | children => ofError (.operands op.symbol 2 children.length)

/-- A negated condition. -/
def ofNot : List Reading → Reading
  | [operand] => ofExpr (operand.plain.map (.unary .not))
  | children => ofError (.operands "!" 1 children.length)

/-- A call; its arguments are in its only child. -/
def ofFunction (name : List Char) : List Reading → Reading
  | [] => ofExpr (Expr.ofCall name [])
  | child :: _ => ofExpr (child.arguments.bind (Expr.ofCall name))

/-- The reading of a node, given those of its children, the last child first. -/
def ofNode (lifted : Lifted) (op : Operator) (children : List Reading) : Reading :=
  match op with
  | .root => ofGroup children
  | .neg => ofNegation children
  | .exp => ofPower children
  | .add => ofFold .add children
  | .mul => ofFold .mul children
  | .sub => ofBinary .sub children
  | .div => ofBinary .div children
  | .mod => ofBinary .mod children
  | .eq => ofBinary .eq children
  | .ne => ofBinary .ne children
  | .gt => ofBinary .gt children
  | .lt => ofBinary .lt children
  | .ge => ofBinary .ge children
  | .le => ofBinary .le children
  | .and => ofBinary .and children
  | .or => ofBinary .or children
  | .not => ofNot children
  | .number x => ofExpr (.ok (.const x))
  | .boolean b => ofExpr (.ok (.const (Literal.ofBool b)))
  | .quoted chars =>
    ofError (.notNumeric (Text.applied "String" [Text.quote (String.ofList chars)]))
  | .readName chars => ofExpr (lifted.expand chars)
  | .function chars => ofFunction chars children
  | .tuple => ofSequence children
  | .chain => ofError (.unsupportedOperator "Chain")
  | .assign a => ofError (.unsupportedOperator (Operator.inspectAssignment a))
  | .writeName chars =>
    ofError (.unsupportedOperator (Text.record "VariableIdentifierWrite"
      [("identifier", Text.quote (String.ofList chars))]))

mutual

/-- The reading of a tree. -/
def ofTree (lifted : Lifted) : OperatorTree → Reading
  | .node op children => ofNode lifted op (ofTrees lifted children)

/-- The readings of several trees. -/
def ofTrees (lifted : Lifted) : List OperatorTree → List Reading
  | [] => []
  | t :: rest => ofTree lifted t :: ofTrees lifted rest

end

theorem ofTrees_eq_map (lifted : Lifted) (ts : List OperatorTree) :
    ofTrees lifted ts = ts.map (ofTree lifted) := by
  induction ts with
  | nil => rfl
  | cons t rest ih => rw [ofTrees, List.map_cons, ih]

end Reading

/-- The expression of an operator tree. -/
def OperatorTree.toExpr (lifted : Lifted) (t : OperatorTree) : Except ReadError (Expr Float) :=
  (Reading.ofTree lifted t).plain

/-- The expression of a text. -/
def Expr.parse (s : String) : Except ReadError (Expr Float) := do
  let lifted ← Lifted.ofText s.toList
  match OperatorTree.ofText lifted.text with
  | .error e => .error (.grammar e)
  | .ok tree => tree.toExpr lifted

end CircuitExpr
