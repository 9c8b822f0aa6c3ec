import CircuitExpr.Numeric.Tolerance
import CircuitExpr.Program.Captures

/-!
# Native code

Code for a machine with registers, ordered in blocks. An instruction is known by its number, and
the value it yields goes by that number too; every number is assigned once. A block is left by
its last instruction alone, which jumps to another block or returns.

Values are real numbers, flags, words and addresses of stack slots. What no single instruction
does is done by calls: division, remainder, power and equality with tolerances, and the functions
that expressions call.
-/

namespace CircuitExpr

/-- The number of an instruction and of the value it yields. -/
abbrev ValueId := Nat

/-- The number of a block. -/
abbrev BlockId := Nat

/-- How two real numbers are compared. -/
inductive FloatOrder where
  | greater
  | less
  | lessOrEqual
  | greaterOrEqual
deriving DecidableEq

/-- The routines for arithmetic with tolerances. -/
inductive Routine where
  | safeDivide
  | modulo
  | power
  | fuzzyEquals
deriving DecidableEq

/-- One instruction. -/
inductive NativeInstruction (K : Type) where
  | realConst (value : K)
  | wordConst (value : Nat)
  /-- The value that a captured source had when the code was entered. -/
  | load (slot : Nat)
  | negate (x : ValueId)
  | add (x y : ValueId)
  | sub (x y : ValueId)
  | mul (x y : ValueId)
  | compare (order : FloatOrder) (x y : ValueId)
  /-- The second value where the flag holds, the third elsewhere. -/
  | select (flag x y : ValueId)
  | flagAnd (x y : ValueId)
  | flagOr (x y : ValueId)
  | flagXor (x y : ValueId)
  | stackStore (value : ValueId) (slot index : Nat)
  | stackLoad (slot : Nat)
  | stackAddress (slot : Nat)
  | callRoutine (routine : Routine) (arguments : List ValueId)
  /-- Calls a captured function with `count` numbers that stand at an address. -/
  | callFunction (function address count : ValueId)
  | branch (flag : ValueId) (whenTrue whenFalse : BlockId)
  | jump (block : BlockId)
  | ret (value : ValueId)

namespace FloatOrder

def mnemonic : FloatOrder → String
  | greater => "gt"
  | less => "lt"
  | lessOrEqual => "le"
  | greaterOrEqual => "ge"

/-- Whether the order holds between two numbers. -/
def holds {K : Type} [Literal K] (order : FloatOrder) (x y : K) : Bool :=
  match order with
  | greater => x > y
  | less => x < y
  | lessOrEqual => x ≤ y
  | greaterOrEqual => x ≥ y

end FloatOrder

namespace Routine

def mnemonic : Routine → String
  | safeDivide => "safe_divide"
  | modulo => "modulo"
  | power => "power"
  | fuzzyEquals => "fuzzy_equals"

/-- The result of a routine. -/
def apply {K : Type} [RealFunctions K] : Routine → List K → K
  | safeDivide, [x, y, fudge] => Literal.safeDivide x y fudge
  | modulo, [x, y] => Literal.modulo x y
  | power, [x, y] => RealFunctions.power x y
  | fuzzyEquals, [x, y, relative, absolute] =>
    Literal.ofBool (Literal.fuzzyEquals x y relative absolute)
  | _, _ => Literal.undefined

end Routine

namespace NativeInstruction

variable {K : Type}

/-- The name of the instruction. -/
def mnemonic : NativeInstruction K → String
  | realConst _ => "f64const"
  | wordConst _ => "iconst"
  | load _ => "load"
  | negate _ => "fneg"
  | add _ _ => "fadd"
  | sub _ _ => "fsub"
  | mul _ _ => "fmul"
  | compare order _ _ => "fcmp " ++ order.mnemonic
  | select _ _ _ => "select"
  | flagAnd _ _ => "band"
  | flagOr _ _ => "bor"
  | flagXor _ _ => "bxor"
  | stackStore _ _ _ => "stack_store"
  | stackLoad _ => "stack_load"
  | stackAddress _ => "stack_addr"
  | callRoutine routine _ => "call " ++ routine.mnemonic
  | callFunction _ _ _ => "call call_native"
  | branch _ _ _ => "brif"
  | jump _ => "jump"
  | ret _ => "return"

/-- The number that an instruction without a value of its own puts away. -/
def putsAway? : NativeInstruction K → Option ValueId
  | stackStore value _ _ | ret value => some value
  | _ => none

/-- Whether the instruction leaves its block. -/
def isTerminator : NativeInstruction K → Bool
  | branch _ _ _ | jump _ | ret _ => true
  | _ => false

end NativeInstruction

/-- An instruction under its number. -/
structure Line (K : Type) where
  id : ValueId
  instruction : NativeInstruction K

/-- Native code: its blocks, of which the first is entered, and what they refer to. -/
structure NativeCode (K : Type) where
  blocks : Array (List (Line K))
  captures : Captures

namespace NativeCode

variable {K : Type}

/-- The outline: how much is captured. -/
def inspect (c : NativeCode K) : String :=
  Text.record "CompiledFunction"
    [("sources", toString c.captures.sources.length),
      ("functions", toString c.captures.functions.length)]

end NativeCode

end CircuitExpr
