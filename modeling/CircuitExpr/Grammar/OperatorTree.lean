import CircuitExpr.Grammar.Token

/-!
# Operator trees

Tokens are put together by precedence. An operator takes its place at the right edge of the tree
built so far: it goes down as long as the rightmost node binds less than it does, and there it
takes that node as its left operand. All operators with two operands group to the left.

A group in parentheses is a node of its own, of the highest precedence, with the group as its
only child. A sequence, by commas or by semicolons, is a node with any number of groups.

## Contents

* `Operator` — what stands at a node, with its precedence and count of operands
* `OperatorTree` — nodes with their children, the last child first: building adds at the end
* `OperatorTree.insert` — adds a node at the right edge
* `OperatorTree.ofTokens` — the tree of a row of tokens

## Termination

`insert` goes from a node to its last child, and a row of tokens is read once from left to right,
with the groups that are not yet complete on a stack.
-/

namespace CircuitExpr

/-! ## Operators -/

/-- What stands at a node. -/
inductive Operator where
  /-- A group, or the whole text. -/
  | root
  | add
  | sub
  | neg
  | mul
  | div
  | mod
  | exp
  | eq
  | ne
  | gt
  | lt
  | ge
  | le
  | and
  | or
  | not
  | assign (a : Assignment)
  /-- A sequence by commas. -/
  | tuple
  /-- A sequence by semicolons. -/
  | chain
  | number (x : Float)
  | boolean (b : Bool)
  | quoted (chars : List Char)
  | readName (chars : List Char)
  | writeName (chars : List Char)
  | function (chars : List Char)

namespace Operator

/-- How strongly an operator binds. -/
def precedence : Operator → Nat
  | root | number _ | boolean _ | quoted _ | readName _ | writeName _ => 200
  | function _ => 190
  | exp => 120
  | neg | not => 110
  | mul | div | mod => 100
  | add | sub => 95
  | eq | ne | gt | lt | ge | le => 80
  | and => 75
  | or => 70
  | assign _ => 50
  | tuple => 40
  | chain => 0

/-- How many children a node may have, if there is a bound. -/
def maxChildren : Operator → Option Nat
  | number _ | boolean _ | quoted _ | readName _ | writeName _ => some 0
  | root | function _ | neg | not => some 1
  | tuple | chain => none
  | _ => some 2

def isRoot : Operator → Bool
  | root => true
  | _ => false

def isLeaf (op : Operator) : Bool := op.maxChildren == some 0

/-- Operators in front of one operand; a group is none. -/
def isUnary (op : Operator) : Bool := op.maxChildren == some 1 && !op.isRoot

def isSequence : Operator → Bool
  | tuple | chain => true
  | _ => false

/-- Operators that group to the right. -/
def isRightToLeft : Operator → Bool
  | assign .plain | function _ => true
  | _ => false

/-- Whether two sequences are of the same kind. -/
def sameSequence : Operator → Operator → Bool
  | tuple, tuple | chain, chain => true
  | _, _ => false

/-- Whether `inner` may go below `outer`. -/
def admits (outer inner : Operator) : Bool :=
  outer.precedence < inner.precedence || inner.isUnary
    || (outer.precedence == inner.precedence && outer.isRightToLeft && inner.isRightToLeft)

end Operator

/-! ## Trees -/

/-- A node with its children, the last child first. -/
inductive OperatorTree where
  | node (op : Operator) (children : List OperatorTree)

namespace OperatorTree

/-- What stands at the node. -/
def operator : OperatorTree → Operator
  | node op _ => op

def children : OperatorTree → List OperatorTree
  | node _ cs => cs

/-- A group with nothing in it yet. -/
def emptyGroup : OperatorTree := node .root []

/-- A node with one child more at the end. -/
def append : OperatorTree → OperatorTree → OperatorTree
  | node op cs, child => node op (child :: cs)

/--
Puts `new` in the place of the last child of a node, with that child as its first operand. Groups
take one child, and only one that is no group.
-/
def rotate (op : Operator) (last : OperatorTree) (before : List OperatorTree)
    (new : OperatorTree) : Except GrammarError OperatorTree :=
  if new.operator.isLeaf then .error .appendedToLeaf
  else if op.isRoot && (!before.isEmpty || new.operator.isRoot) then .error .missingOperator
  else if new.operator.isRoot && (!new.children.isEmpty || last.operator.isRoot) then
    .error .missingOperator
  else .ok (node op (new.append last :: before))

/--
Adds a node at the right edge of a tree. At the top of a group every node is admitted; further
down, those that bind more strongly.
-/
def insert (new : OperatorTree) : Bool → OperatorTree → Except GrammarError OperatorTree
  | top, node op [] =>
    if !(top || op.admits new.operator) then .error .precedence
    else if op.isLeaf then .error .appendedToLeaf
    else .ok (node op [new])
  | top, node op (last :: before) =>
    if !(top || op.admits new.operator) then .error .precedence
    else if op.isLeaf then .error .appendedToLeaf
    else if op.maxChildren == some (before.length + 1) then
      if last.operator.admits new.operator then
        match insert new false last with
        | .error e => .error e
        | .ok last => .ok (node op (last :: before))
      else rotate op last before new
    else .ok (node op (new :: last :: before))

/-! ## Groups and sequences -/

/-- Ends the groups on the stack that bind more strongly than `goal`. -/
def collapseTo (goal : Operator) (done : OperatorTree) :
    List OperatorTree → Except GrammarError (OperatorTree × List OperatorTree)
  | [] => .error .unmatchedClosing
  | higher :: stack =>
    if goal.precedence < higher.operator.precedence then
      collapseTo goal (higher.append done) stack
    else .ok (done, higher :: stack)

/-- Begins or goes on with a sequence behind the group `current`. -/
def addSequence (op : Operator) (current : OperatorTree) (stack : List OperatorTree) :
    Except GrammarError (List OperatorTree) :=
  if current.operator.sameSequence op then .ok (current.append emptyGroup :: stack)
  else if current.operator.isRoot then
    .ok (node op [emptyGroup, current] :: emptyGroup :: stack)
  else if current.operator.precedence < op.precedence then
    match current with
    | node outer (last :: before) =>
      .ok (node op [emptyGroup, last] :: node outer before :: stack)
    | node _ [] => .error .unmatchedClosing
  else
    match collapseTo op current stack with
    | .error e => .error e
    | .ok (done, stack) => .ok (node op [done] :: stack)

/-- Adds a node to the group on top of the stack. -/
def add (new : OperatorTree) : List OperatorTree → Except GrammarError (List OperatorTree)
  | [] => .error .unmatchedClosing
  | current :: stack =>
    if new.operator.isSequence then addSequence new.operator current stack
    else if current.operator.isSequence then
      match current with
      | node op (last :: before) =>
        (insert new true last).map fun last => node op (last :: before) :: stack
      | node _ [] => .error .unmatchedClosing
    else (insert new true current).map (· :: stack)

/-- Ends the sequences on top of the stack. -/
def collapseSequences (current : OperatorTree) :
    List OperatorTree → Except GrammarError (List OperatorTree)
  | [] =>
    if current.operator.isRoot then
      if 1 < current.children.length then .error .missingOperator else .ok [current]
    else .error .unmatchedClosing
  | higher :: stack =>
    if current.operator.isRoot then
      if 1 < current.children.length then .error .missingOperator
      else .ok (current :: higher :: stack)
    else if current.operator.isSequence then collapseSequences (higher.append current) stack
    else .ok (current :: higher :: stack)

/-- Ends the sequences of the group on top of the stack. -/
def collapse : List OperatorTree → Except GrammarError (List OperatorTree)
  | [] => .error .unmatchedClosing
  | current :: stack => collapseSequences current stack

/-- Ends the group on top of the stack and adds it to the one below. -/
def closeGroup (stack : List OperatorTree) : Except GrammarError (List OperatorTree) :=
  if stack.length ≤ 1 then .error .unmatchedClosing
  else
    match collapse stack with
    | .error e => .error e
    | .ok [] => .error .unmatchedClosing
    | .ok (group :: rest) => add group rest

/-! ## From tokens -/

/-- The operator of a name, which depends on the token behind it. -/
def ofName (chars : List Char) (next : Option Token) : Operator :=
  match next with
  | none => .readName chars
  | some token =>
    if token.isAssignment then .writeName chars
    else if token.beginsValue then .function chars
    else .readName chars

/-- The operator of a token; a minus sign behind a value subtracts. -/
def operatorOf (afterValue : Bool) (token : Token) (next : Option Token) : Operator :=
  match token with
  | .plus => .add
  | .minus => if afterValue then .sub else .neg
  | .times => .mul
  | .divide => .div
  | .modulo => .mod
  | .power => .exp
  | .equal => .eq
  | .notEqual => .ne
  | .greater => .gt
  | .less => .lt
  | .greaterOrEqual => .ge
  | .lessOrEqual => .le
  | .and => .and
  | .or => .or
  | .not => .not
  | .comma => .tuple
  | .semicolon => .chain
  | .assign a => .assign a
  | .number x => .number x
  | .boolean b => .boolean b
  | .quoted chars => .quoted chars
  | .name chars => ofName chars next
  | .openParen | .closeParen => .root

/-- Adds a token to the groups on the stack. -/
def place (afterValue : Bool) (token : Token) (next : Option Token)
    (stack : List OperatorTree) : Except GrammarError (List OperatorTree) :=
  match token with
  | .openParen => .ok (emptyGroup :: stack)
  | .closeParen => closeGroup stack
  | token => add (node (operatorOf afterValue token next) []) stack

/-- Adds tokens to the groups on the stack. -/
def build : Bool → List Token → List OperatorTree → Except GrammarError (List OperatorTree)
  | _, [], stack => .ok stack
  | afterValue, token :: rest, stack =>
    match place afterValue token rest.head? stack with
    | .error e => .error e
    | .ok stack => build token.endsValue rest stack

/-- The only group that is left in the end. -/
def single : List OperatorTree → Except GrammarError OperatorTree
  | [] => .error .unmatchedClosing
  | [tree] => .ok tree
  | _ => .error .unmatchedOpening

/-- The tree of a row of tokens. -/
def ofTokens (tokens : List Token) : Except GrammarError OperatorTree := do
  single (← collapse (← build false tokens [emptyGroup]))

/-- The tree of a text without numbers. -/
def ofText (s : List Char) : Except GrammarError OperatorTree := do
  ofTokens (← Token.ofText s)

end OperatorTree

end CircuitExpr
