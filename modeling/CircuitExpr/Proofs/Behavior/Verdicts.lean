import Mathlib
import CircuitExpr.Behavior.Evaluator
import CircuitExpr.Proofs.Evaluation.Validity
import CircuitExpr.Proofs.Native.Kinds

/-!
# What the assembler and the lowering find

The assembler and the lowering to native code go through the tree in their own ways, and each of
them stops at the first thing that it has no code for. What they find is compared with what the
checks find by its `verdict`: that nothing is wrong, or the first thing that is.

Neither of them ever asks for a handler of extension nodes. So their verdict is that of the checks
in an environment whose handler is taken away, `Environment.alone`.

## Main statements

* `verdict_emit` — assembling finds what the checks find
* `verdict_lower` — lowering finds what the checks find
-/

namespace CircuitExpr

/-! ## Verdicts -/

/-- Whether a step succeeds, and why it fails if it does; the result is left out. -/
def verdict {ε α : Type} (x : Except ε α) : Except ε Unit := x.map fun _ => ()

section Verdict

variable {ε α β : Type}

@[simp] theorem verdict_ok (a : α) : verdict (.ok a : Except ε α) = .ok () := rfl

@[simp] theorem verdict_error (x : ε) : verdict (.error x : Except ε α) = .error x := rfl

/-- A chain of steps whose second one has the same verdict on whatever the first one yields. -/
theorem verdict_bind {x : Except ε α} {f : α → Except ε β} {v : Except ε Unit}
    (h : ∀ a, verdict (f a) = v) : verdict (x >>= f) = (verdict x >>= fun _ => v) := by
  cases x with
  | error e => rfl
  | ok a => exact h a

/-- A step that cannot fail at the end changes no verdict. -/
theorem verdict_bind_pure (x : Except ε α) (f : α → β) :
    verdict (x >>= fun a => pure (f a)) = verdict x := by
  cases x <;> rfl

theorem bind_unit_eq {x : Except ε Unit} : (x >>= fun _ => .ok ()) = x := by
  cases x <;> rfl

end Verdict

/-- The environment without its handler of extension nodes. -/
def Environment.alone {K D σ : Type} (env : Environment K D σ) : Environment K D σ :=
  { env with extension := none }

theorem Environment.alone_eq_self {K D σ : Type} {env : Environment K D σ}
    (h : env.extension = none) : env.alone = env := by
  cases env
  cases h
  rfl

/-! ## Assembling -/

namespace Expr

section Assembler

variable {K D σ : Type} [Literal K] [Scalar D K] {env : Environment K D σ}

theorem verdict_emitEach {es : List (Expr K)}
    (h : ∀ e ∈ es, ∀ a, verdict (emit env e a) = validate env.alone e) (a : Assembly D) :
    verdict (emitEach env es a) = validateEach env.alone es := by
  induction es generalizing a with
  | nil => rw [emitEach, validateEach, verdict_ok]
  | cons e rest ih =>
    rw [emitEach, validateEach, verdict_bind (ih fun e he => h e (by simp [he])),
      h e (by simp) a]

/-- **The assembler finds what the checks find**, on whatever code there is already. -/
theorem verdict_emit (env : Environment K D σ) (e : Expr K) (a : Assembly D) :
    verdict (emit env e a) = validate env.alone e := by
  induction e using Expr.induction generalizing a with
  | const value => rw [emit, validate, verdict_ok]
  | var v =>
    rw [emit, validate]
    show _ = if (env.bindings.get? v).isSome = true then _ else _
    cases env.bindings.get? v <;> rfl
  | unary op operand ih => rw [emit, validate, verdict_bind_pure, ih]
  | binary op left right ihl ihr =>
    rw [emit, validate]
    split
    · exact verdict_error _
    · rw [verdict_bind fun b => (verdict_bind_pure _ _).trans (ihr b), ihl]
  | cond condition whenTrue whenFalse ihc iht ihf =>
    rw [emit, validate]
    rw [verdict_bind fun b => ?_, ihc]
    rw [verdict_bind fun c => (verdict_bind_pure _ _).trans (ihf _), iht]
  | call name arguments ih =>
    rw [emit, validate]
    show verdict (env.functions.resolve name arguments.length >>= _) =
      (env.functions.resolve name arguments.length >>= _)
    cases env.functions.resolve name arguments.length with
    | error x => rfl
    | ok d => exact (verdict_bind_pure _ _).trans (verdict_emitEach ih _)
  | ext name arguments =>
    rw [emit, validate, verdict_error]
    exact (if_pos rfl).symm

end Assembler

end Expr

/-! ## Lowering -/

namespace Lowering

variable {K α β : Type}

/-- The step does not fail, whatever code there is already. -/
def Succeeds (m : Lowering K α) : Prop := ∀ d, ∃ r, m.run d = .ok r

theorem Succeeds.pure (a : α) : Succeeds (pure a : Lowering K α) := fun d => ⟨(a, d), rfl⟩

theorem Succeeds.bind {m : Lowering K α} {f : α → Lowering K β} (hm : Succeeds m)
    (hf : ∀ a, Succeeds (f a)) : Succeeds (m >>= f) := by
  intro d
  obtain ⟨⟨a, d'⟩, hmd⟩ := hm d
  obtain ⟨r, hr⟩ := hf a d'
  exact ⟨r, by rw [StateT.run_bind, hmd]; exact hr⟩

theorem Succeeds.modifyGet (f : Draft K → α × Draft K) :
    Succeeds (modifyGet f : Lowering K α) := fun d => ⟨f d, rfl⟩

theorem Succeeds.get : Succeeds (get : Lowering K (Draft K)) := fun d => ⟨(d, d), rfl⟩

theorem Succeeds.emit (i : NativeInstruction K) : Succeeds (Lowering.emit i) := .modifyGet _

theorem Succeeds.close (i : NativeInstruction K) : Succeeds (Lowering.close i) := .modifyGet _

/-- No step that only appends instructions fails. -/
theorem Emits.succeeds {P : NativeInstruction K → Prop} {m : Lowering K α} (h : Emits P m) :
    Succeeds m := by
  induction h with
  | pure a => exact .pure a
  | emit _ => exact .emit _
  | bind _ _ ihm ihf => exact ihm.bind ihf

theorem call_succeeds (function : Nat) (arguments : List ValueId) :
    Succeeds (call function arguments : Lowering K ValueId) :=
  (Succeeds.modifyGet _).bind fun buffer => (storeEach_emits buffer 0 arguments).succeeds.bind
    fun _ => (Succeeds.emit _).bind fun _ => (Succeeds.emit _).bind fun _ =>
      (Succeeds.emit _).bind fun _ => .emit _

theorem leave_succeeds (x : ValueId) (slot : Nat) (merge : BlockId) :
    Succeeds (leave x slot merge : Lowering K Unit) :=
  (Succeeds.emit _).bind fun _ => .close _

section Finds

/-- The verdict of a step, whatever code there is already. -/
def Finds (m : Lowering K α) (v : Except ExpressionError Unit) : Prop :=
  ∀ d, verdict (m.run d) = v

theorem Succeeds.finds {m : Lowering K α} (h : Succeeds m) : Finds m (.ok ()) := by
  intro d
  obtain ⟨r, hr⟩ := h d
  rw [hr, verdict_ok]

theorem Finds.bind {m : Lowering K α} {f : α → Lowering K β} {v w : Except ExpressionError Unit}
    (hm : Finds m v) (hf : ∀ a, Finds (f a) w) : Finds (m >>= f) (v >>= fun _ => w) := by
  intro d
  have h := verdict_bind (x := m.run d) (f := fun r => (f r.1).run r.2) fun r => hf r.1 r.2
  rw [StateT.run_bind, h, hm d]

/-- Behind a step that is looked at, one that cannot fail changes no verdict. -/
theorem Finds.bind_succeeds {m : Lowering K α} {f : α → Lowering K β}
    {v : Except ExpressionError Unit} (hm : Finds m v) (hf : ∀ a, Succeeds (f a)) :
    Finds (m >>= f) v := by
  have h := hm.bind fun a => (hf a).finds
  rwa [bind_unit_eq] at h

/-- In front of a step that is looked at, one that cannot fail changes no verdict. -/
theorem Succeeds.bind_finds {m : Lowering K α} {f : α → Lowering K β}
    {v : Except ExpressionError Unit} (hm : Succeeds m) (hf : ∀ a, Finds (f a) v) :
    Finds (m >>= f) v :=
  hm.finds.bind hf

theorem fail_finds (x : ExpressionError) : Finds (fail x : Lowering K α) (.error x) :=
  fun _ => rfl

end Finds

end Lowering

namespace Expr

section Native

open Lowering

variable {K σ : Type} [RealFunctions K] {env : Environment K K σ}

theorem lacks_real (op : BinaryOp) : lacks K op = false := by
  cases op <;> rfl

theorem lowerEach_finds {es : List (Expr K)}
    (h : ∀ e ∈ es, Finds (lower env e) (validate env.alone e)) :
    Finds (lowerEach env es) (validateEach env.alone es) := by
  induction es with
  | nil =>
    rw [lowerEach, validateEach]
    exact (Succeeds.pure []).finds
  | cons e rest ih =>
    rw [lowerEach, validateEach]
    exact (h e (by simp)).bind fun x =>
      (ih fun e he => h e (by simp [he])).bind_succeeds fun xs => .pure (x :: xs)

/-- **Lowering finds what the checks find**, on whatever code there is already. -/
theorem lower_finds (env : Environment K K σ) (e : Expr K) :
    Finds (lower env e) (validate env.alone e) := by
  induction e using Expr.induction with
  | const value =>
    rw [lower, validate]
    exact (Succeeds.emit _).finds
  | var v =>
    rw [lower, validate]
    show Finds _ (if (env.bindings.get? v).isSome = true then _ else _)
    cases env.bindings.get? v with
    | none => exact fail_finds _
    | some source => exact ((Succeeds.modifyGet _).bind fun _ => .emit _).finds
  | unary op operand ih =>
    rw [lower, validate]
    exact ih.bind_succeeds fun x => (unary_emits op x).succeeds
  | binary op left right ihl ihr =>
    rw [lower, validate, lacks_real, if_neg Bool.false_ne_true]
    exact ihl.bind fun x => ihr.bind_succeeds fun y =>
      (binary_emits env.tolerances op x y).succeeds
  | cond condition whenTrue whenFalse ihc iht ihf =>
    rw [lower, validate]
    refine ihc.bind fun x => (truth_emits x).succeeds.bind_finds fun flag => ?_
    refine (Succeeds.modifyGet _).bind_finds fun slot => Succeeds.get.bind_finds fun d => ?_
    refine (Succeeds.close _).bind_finds fun _ => iht.bind fun y => ?_
    refine (leave_succeeds y slot _).bind_finds fun _ => ihf.bind_succeeds fun z => ?_
    exact (leave_succeeds z slot _).bind fun _ => .emit _
  | call name arguments ih =>
    rw [lower, validate]
    show Finds _ (env.functions.resolve name arguments.length >>= _)
    cases env.functions.resolve name arguments.length with
    | error x => exact fail_finds x
    | ok d =>
      refine (Succeeds.modifyGet _).bind_finds fun function => ?_
      exact (lowerEach_finds ih).bind_succeeds (call_succeeds function)
  | ext name arguments =>
    rw [lower, validate]
    exact fail_finds _

theorem verdict_lower (env : Environment K K σ) (e : Expr K) (d : Draft K) :
    verdict ((e.lower env).run d) = e.validate env.alone :=
  lower_finds env e d

end Native

end Expr

end CircuitExpr
