import CircuitExpr.Native.Lower

/-!
# Executing native code

The meaning of native code. The captured sources are read once, when the code is entered, into
inputs that are kept from one call to the next. All jumps lead to later blocks, so no block is
entered twice and as many blocks as there are suffice.
-/

namespace CircuitExpr

/-- What a value can be. -/
inductive Cell (K : Type) where
  | real (x : K)
  | flag (b : Bool)
  | word (n : Nat)
  /-- The address of a stack slot. -/
  | address (slot : Nat)

namespace Cell

variable {K : Type} [Literal K]

def toReal : Cell K → K
  | real x => x
  | _ => Literal.undefined

def toFlag : Cell K → Bool
  | flag b => b
  | _ => false

def toWord : Cell K → Nat
  | word n => n
  | _ => 0

def toSlot : Cell K → Nat
  | address slot => slot
  | _ => 0

end Cell

/-- Registers and stack slots. -/
structure Machine (K : Type) where
  registers : ValueId → Cell K
  stack : Nat → Nat → K

namespace Machine

variable {K : Type} [Literal K]

/-- Nothing computed yet. -/
def initial : Machine K := ⟨fun _ => .real Literal.undefined, fun _ _ => Literal.undefined⟩

/-- Assigns a value. -/
def assign (m : Machine K) (id : ValueId) (value : Cell K) : Machine K :=
  { m with registers := fun i => if i = id then value else m.registers i }

/-- Stores a number in a stack slot. -/
def store (m : Machine K) (slot index : Nat) (x : K) : Machine K :=
  { m with stack := fun s i => if s = slot ∧ i = index then x else m.stack s i }

def real (m : Machine K) (x : ValueId) : K := (m.registers x).toReal

def flag (m : Machine K) (x : ValueId) : Bool := (m.registers x).toFlag

/-- The first numbers in a stack slot. -/
def arguments (m : Machine K) (slot count : Nat) : List K := (List.range count).map (m.stack slot)

end Machine

/-- Where a block is left to. -/
inductive Exit (K : Type) where
  | jump (block : BlockId)
  | ret (value : K)

namespace NativeCode

variable {K σ : Type} [RealFunctions K]

/-- The value that an instruction yields, if it is one that computes a value by itself. -/
def compute (inputs : List K) (m : Machine K) : NativeInstruction K → Option (Cell K)
  | .realConst value => some (.real value)
  | .wordConst value => some (.word value)
  | .load slot => some (.real (inputs.getD slot Literal.undefined))
  | .negate x => some (.real (-m.real x))
  | .add x y => some (.real (m.real x + m.real y))
  | .sub x y => some (.real (m.real x - m.real y))
  | .mul x y => some (.real (m.real x * m.real y))
  | .compare order x y => some (.flag (order.holds (m.real x) (m.real y)))
  | .select flag x y => some (m.registers (if m.flag flag then x else y))
  | .flagAnd x y => some (.flag (m.flag x && m.flag y))
  | .flagOr x y => some (.flag (m.flag x || m.flag y))
  | .flagXor x y => some (.flag (m.flag x != m.flag y))
  | .stackLoad slot => some (.real (m.stack slot 0))
  | .stackAddress slot => some (.address slot)
  | .callRoutine routine arguments => some (.real (routine.apply (arguments.map m.real)))
  | _ => none

/-- Calls the captured function that a value names. -/
def callFunction (natives : Native → List K → StateM σ K) (c : Captures) (m : Machine K)
    (function address count : ValueId) : StateM σ K :=
  match c.functions[(m.registers function).toWord]? with
  | some f =>
    natives f (m.arguments (m.registers address).toSlot (m.registers count).toWord)
  | none => pure Literal.undefined

/-- Executes a block to its end. One without an end returns nothing of use. -/
def executeBlock (natives : Native → List K → StateM σ K) (c : Captures) (inputs : List K) :
    List (Line K) → Machine K → StateM σ (Exit K × Machine K)
  | [], m => return (.ret Literal.undefined, m)
  | ⟨id, i⟩ :: rest, m =>
    match i with
    | .branch flag whenTrue whenFalse =>
      return (.jump (if m.flag flag then whenTrue else whenFalse), m)
    | .jump block => return (.jump block, m)
    | .ret value => return (.ret (m.real value), m)
    | .stackStore value slot index =>
      executeBlock natives c inputs rest (m.store slot index (m.real value))
    | .callFunction function address count => do
      let x ← callFunction natives c m function address count
      executeBlock natives c inputs rest (m.assign id (.real x))
    | i =>
      match compute inputs m i with
      | some value => executeBlock natives c inputs rest (m.assign id value)
      | none => executeBlock natives c inputs rest m

/-- Executes at most `fuel` blocks, starting with the given one. -/
def executeFrom (natives : Native → List K → StateM σ K) (c : NativeCode K) (inputs : List K) :
    Nat → BlockId → Machine K → StateM σ K
  | 0, _, _ => return Literal.undefined
  | fuel + 1, block, m => do
    match c.blocks[block]? with
    | none => return Literal.undefined
    | some lines =>
      let (exit, m) ← executeBlock natives c.captures inputs lines m
      match exit with
      | .jump next => executeFrom natives c inputs fuel next m
      | .ret value => return value

/-- Writes what each source yields over the input in its place. -/
def refill (setting : Setting K) : List K → List SourceId → List K
  | _ :: inputs, source :: sources => setting source :: refill setting inputs sources
  | inputs, _ => inputs

/-- The inputs before the first call. -/
def blank (c : NativeCode K) : List K := List.replicate c.captures.sources.length 0

/-- Executes the code with the inputs that are kept from call to call; they are written anew. -/
def executeOn (natives : Native → List K → StateM σ K) (c : NativeCode K) (setting : Setting K)
    (inputs : List K) : StateM σ (K × List K) := do
  let inputs := refill setting inputs c.captures.sources
  return (← executeFrom natives c inputs c.blocks.size 0 .initial, inputs)

/-- The value that the code returns. -/
def execute (natives : Native → List K → StateM σ K) (c : NativeCode K) (setting : Setting K) :
    StateM σ K := do
  return (← c.executeOn natives setting c.blank).1

end NativeCode

end CircuitExpr
