import Mathlib
import CircuitExpr.Expr.Variables
import CircuitExpr.Native.Lower
import CircuitExpr.Proofs.Simplify.Neutral

/-!
# Valid expressions

What the checks before an evaluation ask of an expression is a condition on its variables, its
operators and its calls, each by itself. `Expr.Uses` states such conditions in general; an
expression without extension nodes passes the checks exactly when it is `Valid`.

## Contents

* `Uses` — conditions on the variables, operators and calls of an expression
* `Valid`, `validate_eq_ok_iff` — the conditions that are checked
* `Uses.optimize` — optimizing brings in no variable, operator or call
* `validate_withTolerances` — the checks do not look at tolerances
-/

namespace CircuitExpr.Expr

variable {K : Type}

/-! ## What an expression uses -/

/--
Every variable, every operator between operands and every call, by its name and the count of its
arguments, is one of those named. Nothing is left to the host.
-/
inductive Uses (reads : Variable → Prop) (operators : BinaryOp → Prop)
    (calls : String → Nat → Prop) : Expr K → Prop where
  | const (value : K) : Uses reads operators calls (.const value)
  | var {v : Variable} (hv : reads v) : Uses reads operators calls (.var v)
  | unary (op : UnaryOp) {operand : Expr K} (h : Uses reads operators calls operand) :
      Uses reads operators calls (.unary op operand)
  | binary {op : BinaryOp} {left right : Expr K} (hop : operators op)
      (hleft : Uses reads operators calls left)
      (hright : Uses reads operators calls right) :
      Uses reads operators calls (.binary op left right)
  | cond {condition whenTrue whenFalse : Expr K}
      (hcondition : Uses reads operators calls condition)
      (htrue : Uses reads operators calls whenTrue)
      (hfalse : Uses reads operators calls whenFalse) :
      Uses reads operators calls (.cond condition whenTrue whenFalse)
  | call {name : String} {arguments : List (Expr K)} (hname : calls name arguments.length)
      (h : ∀ e ∈ arguments, Uses reads operators calls e) :
      Uses reads operators calls (.call name arguments)

mutual

/-- The operators between operands, from left to right. -/
def operators : Expr K → List BinaryOp
  | .const _ | .var _ => []
  | .unary _ operand => operators operand
  | .binary op left right => operators left ++ op :: operators right
  | .cond condition whenTrue whenFalse =>
    operators condition ++ operators whenTrue ++ operators whenFalse
  | .call _ arguments | .ext _ arguments => operatorsAll arguments

def operatorsAll : List (Expr K) → List BinaryOp
  | [] => []
  | e :: rest => operators e ++ operatorsAll rest

end

theorem mem_occurrencesAll {v : Variable} {es : List (Expr K)} :
    v ∈ occurrencesAll es ↔ ∃ e ∈ es, v ∈ e.occurrences := by
  induction es with
  | nil => simp [occurrencesAll]
  | cons e rest ih => simp [occurrencesAll, ih]

theorem mem_operatorsAll {op : BinaryOp} {es : List (Expr K)} :
    op ∈ operatorsAll es ↔ ∃ e ∈ es, op ∈ e.operators := by
  induction es with
  | nil => simp [operatorsAll]
  | cons e rest ih => simp [operatorsAll, ih]

variable {P P' : Variable → Prop} {Q Q' : BinaryOp → Prop} {R R' : String → Nat → Prop}

theorem Uses.mono {e : Expr K} (hP : ∀ v ∈ e.occurrences, P v → P' v)
    (hQ : ∀ op ∈ e.operators, Q op → Q' op) (hR : ∀ name count, R name count → R' name count)
    (h : e.Uses P Q R) : e.Uses P' Q' R' := by
  induction e using Expr.induction with
  | const value => exact .const value
  | var v =>
    cases h with
    | var hv => exact .var (hP v (by simp [occurrences]) hv)
  | unary op operand ih =>
    cases h with
    | unary _ h => exact .unary op (ih hP hQ h)
  | binary op left right ihl ihr =>
    simp only [occurrences, operators, List.mem_append, List.mem_cons] at hP hQ
    cases h with
    | binary hop hl hr =>
      exact .binary (hQ op (.inr (.inl rfl)) hop)
        (ihl (fun v hv => hP v (.inl hv)) (fun o ho => hQ o (.inl ho)) hl)
        (ihr (fun v hv => hP v (.inr hv)) (fun o ho => hQ o (.inr (.inr ho))) hr)
  | cond condition whenTrue whenFalse ihc iht ihf =>
    simp only [occurrences, operators, List.mem_append] at hP hQ
    cases h with
    | cond hc ht hf =>
      exact .cond
        (ihc (fun v hv => hP v (.inl (.inl hv))) (fun o ho => hQ o (.inl (.inl ho))) hc)
        (iht (fun v hv => hP v (.inl (.inr hv))) (fun o ho => hQ o (.inl (.inr ho))) ht)
        (ihf (fun v hv => hP v (.inr hv)) (fun o ho => hQ o (.inr ho)) hf)
  | call name arguments ih =>
    simp only [occurrences, operators, mem_occurrencesAll, mem_operatorsAll] at hP hQ
    cases h with
    | call hname h =>
      exact .call (hR name _ hname) fun e he =>
        ih e he (fun v hv => hP v ⟨e, he, hv⟩) (fun o ho => hQ o ⟨e, he, ho⟩) (h e he)
  | ext name arguments ih => cases h

/-- An expression uses its own variables and operators. -/
theorem Uses.self {e : Expr K} (h : e.Uses P Q R) :
    e.Uses (fun v => v ∈ e.occurrences ∧ P v) (fun op => op ∈ e.operators ∧ Q op) R :=
  h.mono (fun _ hmem hv => ⟨hmem, hv⟩) (fun _ hmem hop => ⟨hmem, hop⟩) fun _ _ h => h

theorem Uses.plain {e : Expr K} (h : e.Uses P Q R) : e.Plain := by
  induction e using Expr.induction with
  | const value => exact .const value
  | var v => exact .var v
  | unary op operand ih =>
    cases h with
    | unary _ h => exact .unary op (ih h)
  | binary op left right ihl ihr =>
    cases h with
    | binary _ hl hr => exact .binary op (ihl hl) (ihr hr)
  | cond condition whenTrue whenFalse ihc iht ihf =>
    cases h with
    | cond hc ht hf => exact .cond (ihc hc) (iht ht) (ihf hf)
  | call name arguments ih =>
    cases h with
    | call _ h => exact .call name fun e he => ih e he (h e he)
  | ext name arguments ih => cases h

/-! ## Optimizing -/

section Optimize

variable {D : Type} [Literal K] [Scalar D K] {tolerances : Tolerances K}

omit [Literal K] in
theorem uses_hereditary : Hereditary (Uses P Q R : Expr K → Prop) where
  const := .const
  unary := by
    refine ⟨fun h => ?_, .unary _⟩
    cases h with
    | unary _ h => exact h
  binary h := by
    cases h with
    | binary hop hl hr => exact ⟨hl, hr, .binary hop⟩
  cond := by
    refine ⟨fun h => ?_, fun ⟨hc, ht, hf⟩ => .cond hc ht hf⟩
    cases h with
    | cond hc ht hf => exact ⟨hc, ht, hf⟩
  call h := by
    cases h with
    | call hname h => exact ⟨h, fun hlength hes => .call (by rwa [hlength]) hes⟩
  ext h := by cases h

/-- **Optimizing brings in no variable, no operator and no call.** -/
theorem Uses.optimize {e : Expr K} (h : e.Uses P Q R) :
    (e.optimize D tolerances).Uses P Q R :=
  uses_hereditary.optimize h

end Optimize

/-! ## What is checked -/

section Check

variable {D σ : Type} [Literal K] [Scalar D K] {env : Environment K D σ}

/--
All variables are bound, all operators are among those of the domain, and all calls are of
registered functions with as many arguments as they accept.
-/
def Valid (env : Environment K D σ) (e : Expr K) : Prop :=
  e.Uses (fun v => env.bindings.contains v = true) (fun op => lacks D op = false)
    fun name count => ∃ d, env.functions.resolve name count = .ok d

theorem validate_binary_eq_ok {op : BinaryOp} {left right : Expr K} :
    validate env (.binary op left right) = .ok () ↔
      lacks D op = false ∧ validate env left = .ok () ∧ validate env right = .ok () := by
  rw [validate, ite_error_eq_ok, bind_eq_ok]
  constructor
  · rintro ⟨hop, _, h⟩
    exact ⟨hop, h⟩
  · rintro ⟨hop, h⟩
    exact ⟨hop, (), h⟩

theorem validate_cond_eq_ok {condition whenTrue whenFalse : Expr K} :
    validate env (.cond condition whenTrue whenFalse) = .ok () ↔
      validate env condition = .ok () ∧ validate env whenTrue = .ok () ∧
        validate env whenFalse = .ok () := by
  rw [validate, bind_eq_ok]
  simp only [bind_eq_ok]
  constructor
  · rintro ⟨_, hc, _, ht, hf⟩
    exact ⟨hc, ht, hf⟩
  · rintro ⟨hc, ht, hf⟩
    exact ⟨(), hc, (), ht, hf⟩

theorem validate_call_eq_ok {name : String} {arguments : List (Expr K)} :
    validate env (.call name arguments) = .ok () ↔
      (∃ d, env.functions.resolve name arguments.length = .ok d) ∧
        ∀ e ∈ arguments, validate env e = .ok () := by
  rw [validate, bind_eq_ok, validateEach_eq_ok_iff]
  constructor
  · rintro ⟨d, hd, h⟩
    exact ⟨⟨d, hd⟩, h⟩
  · rintro ⟨⟨d, hd⟩, h⟩
    exact ⟨d, hd, h⟩

/-- **The checks pass exactly on the valid expressions**, if nothing is left to the host. -/
theorem validate_eq_ok_iff {e : Expr K} (hplain : e.Plain) :
    e.validate env = .ok () ↔ e.Valid env := by
  induction e using Expr.induction with
  | const value => exact ⟨fun _ => .const value, fun _ => by rw [validate]⟩
  | var v =>
    rw [validate]
    constructor
    · intro h
      split at h
      · next hbound => exact .var hbound
      · cases h
    · intro h
      cases h with
      | var hbound => rw [if_pos hbound]
  | unary op operand ih =>
    rw [validate]
    cases hplain with
    | unary _ hplain => exact (ih hplain).trans uses_hereditary.unary.symm
  | binary op left right ihl ihr =>
    cases hplain with
    | binary _ hpl hpr =>
      rw [validate_binary_eq_ok, ihl hpl, ihr hpr]
      constructor
      · rintro ⟨hop, hl, hr⟩
        exact .binary hop hl hr
      · intro h
        cases h with
        | binary hop hl hr => exact ⟨hop, hl, hr⟩
  | cond condition whenTrue whenFalse ihc iht ihf =>
    cases hplain with
    | cond hpc hpt hpf =>
      rw [validate_cond_eq_ok, ihc hpc, iht hpt, ihf hpf]
      exact uses_hereditary.cond.symm
  | call name arguments ih =>
    rw [validate_call_eq_ok]
    cases hplain with
    | call _ hplain =>
      constructor
      · rintro ⟨hname, h⟩
        exact .call hname fun e he => (ih e he (hplain e he)).mp (h e he)
      · intro h
        cases h with
        | call hname h => exact ⟨hname, fun e he => (ih e he (hplain e he)).mpr (h e he)⟩
  | ext name arguments ih => cases hplain

theorem validateEach_congr {env' : Environment K D σ} {es : List (Expr K)}
    (h : ∀ e ∈ es, validate env e = validate env' e) :
    validateEach env es = validateEach env' es := by
  induction es with
  | nil => rw [validateEach, validateEach]
  | cons e rest ih =>
    rw [validateEach, validateEach, h e (by simp), ih fun e he => h e (by simp [he])]

/-- **The checks do not look at tolerances.** -/
theorem validate_withTolerances (tolerances : Tolerances K) (e : Expr K) :
    e.validate { env with tolerances := tolerances } = e.validate env := by
  induction e using Expr.induction with
  | const | var => rw [validate, validate]
  | unary op operand ih => rw [validate, validate, ih]
  | binary op left right ihl ihr => rw [validate, validate, ihl, ihr]
  | cond condition whenTrue whenFalse ihc iht ihf => rw [validate, validate, ihc, iht, ihf]
  | call name arguments ih | ext name arguments ih =>
    rw [validate, validate, validateEach_congr ih]

end Check

end CircuitExpr.Expr
