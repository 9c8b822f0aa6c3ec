import Mathlib
import CircuitExpr.Native.Execute
import CircuitExpr.Proofs.Evaluation.Outcome
import CircuitExpr.Proofs.Native.Kinds

/-!
# Lowering only appends

What a step of lowering does to a draft is to append instructions, close blocks, take stack slots
and capture more. So finished code contains every draft on the way to it, `Draft.Within`, and what
stands behind the instructions of a draft can be spoken of, `NativeCode.rest`.

## Main statements

* `Draft.Extends` — what is appended, with the count of blocks that are begun
* `Lowering.Grows`, `Expr.lower_grows` — every step of lowering appends a known count of blocks
* `rest_push`, `rest_close` — what stands behind a draft
-/

namespace CircuitExpr

/-! ## Drafts as parts of finished code -/

/-- The code begins with the draft. -/
structure Draft.Within {K : Type} (d : Draft K) (c : NativeCode K) : Prop where
  closed : ∀ b < d.block, c.blocks[b]? = d.closed[b]?
  current : ∃ rest, c.blocks[d.block]? = some (d.current.reverse ++ rest)
  sources : d.captures.sources <+: c.captures.sources
  functions : d.captures.functions <+: c.captures.functions

/-- What is left of a block behind the instructions of a draft. -/
def NativeCode.rest {K : Type} (c : NativeCode K) (d : Draft K) : List (Line K) :=
  (c.blocks[d.block]?.getD []).drop d.current.length

/-- The first draft is the beginning of the second one, `blocks` blocks earlier. -/
structure Draft.Extends {K : Type} (d : Draft K) (blocks : Nat) (d' : Draft K) : Prop where
  block : d'.block = d.block + blocks
  next : d.next ≤ d'.next
  slots : d.slots ≤ d'.slots
  within : ∀ {c : NativeCode K}, d'.Within c → d.Within c

namespace Draft

variable {K : Type} {d d' d'' : Draft K} {c : NativeCode K} {i : NativeInstruction K}

theorem Extends.refl (d : Draft K) : d.Extends 0 d := ⟨rfl, Nat.le_refl _, Nat.le_refl _, id⟩

theorem Extends.trans {n n' : Nat} (h : d.Extends n d') (h' : d'.Extends n' d'') :
    d.Extends (n + n') d'' where
  block := by rw [h'.block, h.block, Nat.add_assoc]
  next := Nat.le_trans h.next h'.next
  slots := Nat.le_trans h.slots h'.slots
  within hc := h.within (h'.within hc)

theorem block_push (d : Draft K) (i : NativeInstruction K) : (d.push i).block = d.block := rfl

theorem block_close (d : Draft K) (i : NativeInstruction K) :
    (d.close i).block = d.block + 1 :=
  Array.size_push _

theorem extends_push (d : Draft K) (i : NativeInstruction K) : d.Extends 0 (d.push i) where
  block := rfl
  next := Nat.le_succ _
  slots := Nat.le_refl _
  within h := by
    obtain ⟨rest, hrest⟩ := h.current
    refine ⟨h.closed, ⟨⟨d.next, i⟩ :: rest, ?_⟩, h.sources, h.functions⟩
    rw [← block_push d i, hrest]
    simp [push]

/-- The block that is closed is complete. -/
theorem Within.closed_block (h : (d.close i).Within c) :
    c.blocks[d.block]? = some (d.current.reverse ++ [⟨d.next, i⟩]) := by
  rw [h.closed d.block (by rw [block_close]; exact Nat.lt_succ_self _)]
  show (d.closed.push _)[d.closed.size]? = _
  rw [Array.getElem?_push_size]
  simp [push]

theorem extends_close (d : Draft K) (i : NativeInstruction K) : d.Extends 1 (d.close i) where
  block := block_close d i
  next := Nat.le_succ _
  slots := Nat.le_refl _
  within h := by
    refine ⟨fun b hb => ?_, ⟨_, h.closed_block⟩, h.sources, h.functions⟩
    rw [h.closed b (by rw [block_close]; exact Nat.lt_succ_of_lt hb)]
    exact Array.getElem?_push_lt hb ▸ (Array.getElem?_eq_getElem hb).symm

theorem extends_withSource (d : Draft K) (source : SourceId) :
    d.Extends 0 { d with captures := d.captures.withSource source } where
  block := rfl
  next := Nat.le_refl _
  slots := Nat.le_refl _
  within h := ⟨h.closed, h.current, (Captures.prefix_adjoin _ _).trans h.sources, h.functions⟩

theorem extends_withFunction (d : Draft K) (f : Native) :
    d.Extends 0 { d with captures := d.captures.withFunction f } where
  block := rfl
  next := Nat.le_refl _
  slots := Nat.le_refl _
  within h := ⟨h.closed, h.current, h.sources, (Captures.prefix_adjoin _ _).trans h.functions⟩

/-- The draft with one more stack slot. -/
def taking (d : Draft K) : Draft K := { d with slots := d.slots + 1 }

theorem extends_taking (d : Draft K) : d.Extends 0 d.taking where
  block := rfl
  next := Nat.le_refl _
  slots := Nat.le_succ _
  within h := ⟨h.closed, h.current, h.sources, h.functions⟩

/-! ## What stands behind a draft -/

theorem Within.rest_eq {rest : List (Line K)}
    (h : c.blocks[d.block]? = some (d.current.reverse ++ rest)) :
    c.rest d = rest := by
  unfold NativeCode.rest
  rw [h, Option.getD_some, ← List.length_reverse, List.drop_left]

theorem Within.rest_push (h : (d.push i).Within c) :
    c.rest d = ⟨d.next, i⟩ :: c.rest (d.push i) := by
  obtain ⟨rest, hrest⟩ := h.current
  rw [Within.rest_eq hrest]
  refine Within.rest_eq ?_
  rw [← block_push d i, hrest]
  simp [push]

theorem Within.rest_close (h : (d.close i).Within c) : c.rest d = [⟨d.next, i⟩] :=
  Within.rest_eq h.closed_block

/-- At the beginning of a block all of it is left. -/
theorem Within.block_eq (h : d.Within c) (hcurrent : d.current = []) :
    c.blocks[d.block]? = some (c.rest d) := by
  obtain ⟨rest, hrest⟩ := h.current
  rw [Within.rest_eq hrest, hrest, hcurrent]
  rfl

end Draft

/-! ## Steps of lowering -/

namespace Lowering

variable {K α β : Type}

/-- Whenever the step succeeds it only appends, and begins that many blocks. -/
def Grows (m : Lowering K α) (blocks : Nat) : Prop :=
  ∀ d a d', m.run d = .ok (a, d') → d.Extends blocks d'

theorem run_bind_eq_ok {m : Lowering K α} {f : α → Lowering K β} {d d'' : Draft K} {b : β} :
    (m >>= f).run d = .ok (b, d'') ↔
      ∃ a d', m.run d = .ok (a, d') ∧ (f a).run d' = .ok (b, d'') := by
  rw [StateT.run_bind, bind_eq_ok]
  exact Prod.exists

theorem Grows.bind {m : Lowering K α} {f : α → Lowering K β} {n n' : Nat} (hm : Grows m n)
    (hf : ∀ a, Grows (f a) n') : Grows (m >>= f) (n + n') := by
  intro d b d'' h
  obtain ⟨a, d', hm', hf'⟩ := run_bind_eq_ok.mp h
  exact (hm d a d' hm').trans (hf a d' b d'' hf')

theorem Grows.modifyGet {f : Draft K → α × Draft K} {n : Nat}
    (h : ∀ d : Draft K, d.Extends n (f d).2) : Grows (modifyGet f : Lowering K α) n := by
  intro d a d' hrun
  have hd : f d = (a, d') := Except.ok.inj hrun
  have hextends := h d
  rwa [hd] at hextends

theorem Grows.pure (a : α) : Grows (pure a : Lowering K α) 0 := .modifyGet .refl

theorem Grows.get : Grows (get : Lowering K (Draft K)) 0 := .modifyGet .refl

theorem Grows.fail (x : ExpressionError) (n : Nat) : Grows (Lowering.fail x : Lowering K α) n :=
  fun _ _ _ h => nomatch h

theorem emit_grows (i : NativeInstruction K) : Grows (emit i) 0 :=
  .modifyGet fun d => d.extends_push i

theorem close_grows (i : NativeInstruction K) : Grows (close i) 1 :=
  .modifyGet fun d => d.extends_close i

theorem takeSlot_grows : Grows (takeSlot : Lowering K Nat) 0 :=
  .modifyGet fun d => d.extends_taking

theorem captureSource_grows (source : SourceId) :
    Grows (captureSource source : Lowering K Nat) 0 :=
  .modifyGet fun d => d.extends_withSource source

theorem captureFunction_grows (f : Native) : Grows (captureFunction f : Lowering K Nat) 0 :=
  .modifyGet fun d => d.extends_withFunction f

/-- Within a block, one step after another. -/
theorem Grows.then {m : Lowering K α} {f : α → Lowering K β} {n : Nat} (hm : Grows m 0)
    (hf : ∀ a, Grows (f a) n) : Grows (m >>= f) n := by
  have h := hm.bind hf
  rwa [Nat.zero_add] at h

/-- Steps that only append instructions begin no block. -/
theorem Emits.grows {P : NativeInstruction K → Prop} {m : Lowering K α} (h : Emits P m) :
    Grows m 0 := by
  induction h with
  | pure a => exact .pure a
  | emit _ => exact emit_grows _
  | bind _ _ ihm ihf => exact ihm.then ihf

section Operators

variable [Literal K]

theorem truth_grows (x : ValueId) : Grows (truth x : Lowering K ValueId) 0 :=
  (truth_emits x).grows

theorem ofFlag_grows (flag : ValueId) : Grows (ofFlag flag : Lowering K ValueId) 0 :=
  (ofFlag_emits flag).grows

theorem unary_grows (op : UnaryOp) (x : ValueId) : Grows (unary op x : Lowering K ValueId) 0 :=
  (unary_emits op x).grows

theorem binary_grows (tolerances : Tolerances K) (op : BinaryOp) (x y : ValueId) :
    Grows (binary tolerances op x y) 0 :=
  (binary_emits tolerances op x y).grows

omit [Literal K] in
theorem storeEach_grows (slot index : Nat) (xs : List ValueId) :
    Grows (storeEach slot index xs : Lowering K Unit) 0 :=
  (storeEach_emits slot index xs).grows

omit [Literal K] in
/-- A call with numbers that are stored already. -/
theorem callStored_grows (function buffer count : Nat) :
    Grows (do
      let address ← emit (.stackAddress buffer)
      let slot ← emit (.wordConst function)
      let count ← emit (.wordConst count)
      emit (.callFunction slot address count) : Lowering K ValueId) 0 :=
  (emit_grows _).then fun _ => (emit_grows _).then fun _ => (emit_grows _).then fun _ =>
    emit_grows _

omit [Literal K] in
theorem call_grows (function : Nat) (arguments : List ValueId) :
    Grows (call function arguments : Lowering K ValueId) 0 :=
  takeSlot_grows.then fun buffer => (storeEach_grows buffer 0 arguments).then fun _ =>
    callStored_grows function buffer arguments.length

omit [Literal K] in
theorem leave_grows (x : ValueId) (slot : Nat) (merge : BlockId) :
    Grows (leave x slot merge : Lowering K Unit) 1 :=
  (emit_grows _).then fun _ => close_grows _

end Operators

end Lowering

/-! ## Lowering -/

namespace Expr

open Lowering

variable {K σ : Type} [RealFunctions K] {env : Environment K K σ}

theorem lowerEach_grows {es : List (Expr K)}
    (h : ∀ e ∈ es, Grows (lower env e) (3 * e.conditionals)) :
    Grows (lowerEach env es) (3 * conditionalsEach es) := by
  induction es with
  | nil =>
    rw [lowerEach, conditionalsEach]
    exact .pure []
  | cons e rest ih =>
    rw [lowerEach, conditionalsEach, Nat.mul_add]
    exact (h e (by simp)).bind fun x => (ih fun e he => h e (by simp [he])).bind fun _ => .pure _

/-- **Every conditional begins three blocks.** -/
theorem lower_grows (env : Environment K K σ) (e : Expr K) :
    Grows (lower env e) (3 * e.conditionals) := by
  induction e using Expr.induction with
  | const value =>
    rw [lower, conditionals]
    exact emit_grows _
  | var v =>
    rw [lower, conditionals]
    cases env.bindings.get? v with
    | none => exact .fail _ _
    | some source => exact (captureSource_grows source).then fun _ => emit_grows _
  | unary op operand ih =>
    rw [lower, conditionals]
    exact ih.bind fun x => unary_grows op x
  | binary op left right ihl ihr =>
    rw [lower, conditionals, Nat.mul_add]
    exact ihl.bind fun x => ihr.bind fun y => binary_grows env.tolerances op x y
  | cond condition whenTrue whenFalse ihc iht ihf =>
    rw [lower, conditionals]
    have hblocks : 3 * (condition.conditionals + whenTrue.conditionals + whenFalse.conditionals + 1)
        = 3 * condition.conditionals +
          (1 + (3 * whenTrue.conditionals + (1 + (3 * whenFalse.conditionals + (1 + 0))))) := by
      omega
    rw [hblocks]
    refine ihc.bind fun x => (truth_grows x).then fun flag => takeSlot_grows.then fun slot => ?_
    refine Grows.get.then fun d => (close_grows _).bind fun _ => iht.bind fun y => ?_
    refine (leave_grows y slot _).bind fun _ => ihf.bind fun z => ?_
    exact (leave_grows z slot _).bind fun _ => emit_grows _
  | call name arguments ih =>
    rw [lower, conditionals]
    cases env.functions.resolve name arguments.length with
    | error x => exact .fail x _
    | ok d =>
      exact (captureFunction_grows d.native).then fun function =>
        (lowerEach_grows ih).bind fun values => call_grows function values
  | ext name arguments ih =>
    rw [lower]
    exact .fail _ _

end Expr

end CircuitExpr
