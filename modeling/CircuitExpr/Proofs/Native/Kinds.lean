import Mathlib
import CircuitExpr.Native.Lower

/-!
# Kinds of instructions

The parts of an expression show in its native code: a conditional in jumps and a stack slot, a
variable in a load, a call in a call with stored arguments. The instructions by which they show
have a `LineKind`; all others are ordinary. Operators take ordinary instructions alone, and steps
that only append instructions are put together from single ones, `Lowering.Emits`.

## Main statements

* `NativeInstruction.kind?` — the kind of an instruction, if it is not ordinary
* `Lowering.Emits` — steps that only append instructions
* `unary_emits`, `binary_emits` — the steps of operators
-/

namespace CircuitExpr

/-! ## Kinds -/

/-- The kinds of instructions of which the parts of an expression decide how many there are. -/
inductive LineKind where
  | branch
  | jump
  | ret
  | load
  | stackLoad
  | stackStore
  | call
deriving DecidableEq

namespace NativeInstruction

variable {K : Type}

/-- The kind of an instruction, if it has one. -/
def kind? : NativeInstruction K → Option LineKind
  | branch _ _ _ => some .branch
  | jump _ => some .jump
  | ret _ => some .ret
  | load _ => some .load
  | stackLoad _ => some .stackLoad
  | stackStore _ _ _ => some .stackStore
  | callFunction _ _ _ => some .call
  | _ => none

/-- Neither jumps nor reads nor writes a source or a stack slot nor calls a captured function. -/
def Ordinary (i : NativeInstruction K) : Prop := i.kind? = none

/-- An ordinary instruction stays in its block. -/
theorem Ordinary.isTerminator {i : NativeInstruction K} (h : i.Ordinary) :
    i.isTerminator = false := by
  cases i with
  | branch | jump | ret => cases h
  | _ => rfl

end NativeInstruction

/-! ## Steps that append instructions -/

namespace Lowering

variable {K : Type}

/-- Put together from steps that append one instruction each, all of them with this property. -/
inductive Emits (P : NativeInstruction K → Prop) : {α : Type} → Lowering K α → Prop where
  | pure {α : Type} (a : α) : Emits P (pure a : Lowering K α)
  | emit {i : NativeInstruction K} (h : P i) : Emits P (Lowering.emit i)
  | bind {α β : Type} {m : Lowering K α} {f : α → Lowering K β} (hm : Emits P m)
    (hf : ∀ a, Emits P (f a)) : Emits P (m >>= f)

/-- An instruction in front of other steps. -/
theorem Emits.emit_bind {P : NativeInstruction K → Prop} {β : Type} {i : NativeInstruction K}
    {f : ValueId → Lowering K β} (h : P i) (hf : ∀ a, Emits P (f a)) :
    Emits P (Lowering.emit i >>= f) :=
  (Emits.emit h).bind hf

/-- An instruction for each of several values. -/
theorem storeEach_emits (slot index : Nat) (xs : List ValueId) :
    Emits (fun i => i.kind? = some .stackStore) (storeEach slot index xs : Lowering K Unit) := by
  induction xs generalizing index with
  | nil => exact .pure ()
  | cons x rest ih => exact .emit_bind rfl fun _ => ih (index + 1)

/-! ## Operators -/

section Operators

open NativeInstruction

variable [Literal K]

theorem truth_emits (x : ValueId) : Emits Ordinary (truth x : Lowering K ValueId) :=
  .emit_bind rfl fun _ => .emit rfl

theorem ofFlag_emits (flag : ValueId) : Emits Ordinary (ofFlag flag : Lowering K ValueId) :=
  .emit_bind rfl fun _ => .emit_bind rfl fun _ => .emit rfl

theorem unary_emits (op : UnaryOp) (x : ValueId) :
    Emits Ordinary (unary op x : Lowering K ValueId) := by
  cases op with
  | plus => exact .pure x
  | minus => exact .emit rfl
  | not => exact (truth_emits x).bind fun _ => .emit_bind rfl fun _ => .emit_bind rfl fun _ =>
      .emit rfl

theorem ordering_emits (order : FloatOrder) (x y : ValueId) :
    Emits Ordinary (ordering order x y : Lowering K ValueId) :=
  .emit_bind rfl ofFlag_emits

omit [Literal K] in
theorem equality_emits (tolerances : Tolerances K) (x y : ValueId) :
    Emits Ordinary (equality tolerances x y) :=
  .emit_bind rfl fun _ => .emit_bind rfl fun _ => .emit rfl

theorem logical_emits {join : ValueId → ValueId → NativeInstruction K}
    (hjoin : ∀ p q, (join p q).Ordinary) (x y : ValueId) : Emits Ordinary (logical join x y) :=
  (truth_emits x).bind fun p => (truth_emits y).bind fun q => .emit_bind (hjoin p q) ofFlag_emits

/-- **Operators take ordinary instructions alone.** -/
theorem binary_emits (tolerances : Tolerances K) (op : BinaryOp) (x y : ValueId) :
    Emits Ordinary (binary tolerances op x y) := by
  cases op with
  | add | sub | mul | mod | pow => exact .emit rfl
  | div => exact .emit_bind rfl fun _ => .emit rfl
  | lt | gt | le | ge => exact ordering_emits _ x y
  | eq => exact equality_emits tolerances x y
  | ne => exact (equality_emits tolerances x y).bind fun _ => .emit_bind rfl fun _ => .emit rfl
  | and | or | xor =>
    refine logical_emits (fun p q => ?_) x y
    rfl

end Operators

end Lowering

end CircuitExpr
