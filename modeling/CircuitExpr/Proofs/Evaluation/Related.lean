import Mathlib
import CircuitExpr.Proofs.Evaluation.Outcome

/-!
# Related evaluations

Two evaluations are related when, from related states of their hosts, both fail or both end with
related values, in related states again. Relating them is done along the structure of expressions:
an operator that respects related values takes related operands to related results, and so on.

## Contents

* `Run.Related` — related computations, put together by `Related.bind`
* `UnaryOp.Respects`, `BinaryOp.Respects`, `Native.Respects` — what is asked of operators and
  functions
* one theorem for each form of an expression, such as `evaluate_binary_related`

The environments on the two sides may differ in their hosts, the expressions in everything that
is not asked for.
-/

namespace CircuitExpr

open List (Forall₂)

/-! ## Related computations -/

/-- Both fail, or both succeed with related values. -/
inductive Agree {ε α β : Type} (V : α → β → Prop) : Except ε α → Except ε β → Prop where
  | ok {a : α} {b : β} (h : V a b) : Agree V (.ok a) (.ok b)
  | error (e e' : ε) : Agree V (.error e) (.error e')

theorem Agree.refl {ε α : Type} {V : α → α → Prop} (hV : ∀ a, V a a) (x : Except ε α) :
    Agree V x x := by
  cases x with
  | ok a => exact .ok (hV a)
  | error e => exact .error e e

theorem Agree.trans {ε α : Type} {V : α → α → Prop} (hV : Equivalence V) {x y z : Except ε α}
    (h : Agree V x y) (h' : Agree V y z) : Agree V x z := by
  cases h with
  | ok h =>
    cases h' with
    | ok h' => exact .ok (hV.trans h h')
  | error e e' =>
    cases h' with
    | error _ e'' => exact .error e e''

namespace Run

variable {σ τ α β γ δ : Type} {V : α → β → Prop} {W : γ → δ → Prop} {R : σ → τ → Prop}

/-- From related states, both fail or both end with related values, in related states. -/
def Related (V : α → β → Prop) (R : σ → τ → Prop) (x : Run σ α) (y : Run τ β) : Prop :=
  ∀ s t, R s t →
    Agree V (x.outcome s).1 (y.outcome t).1 ∧ R (x.outcome s).2 (y.outcome t).2

theorem Related.pure {a : α} {b : β} (h : V a b) :
    Related V R (Pure.pure a : Run σ α) (Pure.pure b : Run τ β) :=
  fun _ _ hst => ⟨.ok h, hst⟩

theorem Related.ofExcept {x : Except ExpressionError α} {y : Except ExpressionError β}
    (h : Agree V x y) : Related V R (Run.ofExcept x : Run σ α) (Run.ofExcept y : Run τ β) :=
  fun _ _ hst => ⟨h, hst⟩

theorem Related.ofCall {x : StateM σ α} {y : StateM τ β}
    (h : ∀ s t, R s t → V (x.run s).1 (y.run t).1 ∧ R (x.run s).2 (y.run t).2) :
    Related V R (Run.ofCall x) (Run.ofCall y) :=
  fun s t hst => ⟨.ok (h s t hst).1, (h s t hst).2⟩

theorem Related.bind {x : Run σ α} {y : Run τ β} {f : α → Run σ γ} {g : β → Run τ δ}
    (h : Related V R x y) (hfg : ∀ a b, V a b → Related W R (f a) (g b)) :
    Related W R (x >>= f) (y >>= g) := by
  intro s t hst
  obtain ⟨hvalue, hstate⟩ := h s t hst
  rcases hx : x.outcome s with ⟨r, s'⟩
  rcases hy : y.outcome t with ⟨r', t'⟩
  rw [hx, hy] at hvalue hstate
  cases hvalue with
  | ok hab =>
    rw [outcome_bind_ok hx, outcome_bind_ok hy]
    exact hfg _ _ hab s' t' hstate
  | error e e' =>
    rw [outcome_bind_error hx, outcome_bind_error hy]
    exact ⟨.error e e', hstate⟩

/-- A value that a computation may end with. -/
def Meets (x : Run σ α) (a : α) : Prop := ∃ s s', x.outcome s = (.ok a, s')

theorem Related.meets {x : Run σ α} {y : Run τ β} (h : Related V R x y) :
    Related (fun a b => V a b ∧ x.Meets a) R x y := by
  intro s t hst
  obtain ⟨hvalue, hstate⟩ := h s t hst
  rcases hx : x.outcome s with ⟨r, s'⟩
  rcases hy : y.outcome t with ⟨r', t'⟩
  rw [hx, hy] at hvalue hstate
  refine ⟨?_, hstate⟩
  cases hvalue with
  | ok hab => exact .ok ⟨hab, s, s', hx⟩
  | error e e' => exact .error e e'

theorem Related.trans {V : α → α → Prop} {R : σ → σ → Prop} (hV : Equivalence V)
    (hR : Equivalence R) {x y z : Run σ α} (h : Related V R x y) (h' : Related V R y z) :
    Related V R x z := by
  intro s t hst
  obtain ⟨hvalue, hstate⟩ := h s t hst
  obtain ⟨hvalue', hstate'⟩ := h' t t (hR.refl t)
  exact ⟨hvalue.trans hV hvalue', hR.trans hstate hstate'⟩

end Run

/-! ## Operators and functions that respect related values -/

section Respects

variable {K D σ τ : Type} [Literal K] [Scalar D K]

/-- Related operands yield related results. -/
def UnaryOp.Respects (V : D → D → Prop) (op : UnaryOp) : Prop :=
  ∀ x x', V x x' → V (op.apply x) (op.apply x')

/-- Related operands yield related results. -/
def BinaryOp.Respects (V : D → D → Prop) (tolerances : Tolerances K) (op : BinaryOp) : Prop :=
  ∀ x x' y y', V x x' → V y y' → Agree V (op.apply tolerances x y) (op.apply tolerances x' y')

/-- For so many arguments, related arguments and states yield related results and states. -/
def Native.Respects (V : D → D → Prop) (R : σ → τ → Prop) (count : Nat)
    (f : List D → StateM σ D) (g : List D → StateM τ D) : Prop :=
  ∀ xs ys, xs.length = count → Forall₂ V xs ys → ∀ s t, R s t →
    V ((f xs).run s).1 ((g ys).run t).1 ∧ R ((f xs).run s).2 ((g ys).run t).2

end Respects

/-! ## Expressions, form by form -/

namespace Expr

open Run

variable {K D σ τ : Type} [Literal K] [Scalar D K] {env : Environment K D σ}
  {env' : Environment K D τ} {setting : Setting D} {V : D → D → Prop} {R : σ → τ → Prop}

theorem evaluate_const_related (hV : ∀ x, V x x) (value : K) :
    Related V R (evaluate env setting (.const value)) (evaluate env' setting (.const value)) := by
  simp only [evaluate]
  exact .pure (hV _)

theorem evaluate_var_related (hV : ∀ x, V x x) (hbindings : env.bindings = env'.bindings)
    (v : Variable) :
    Related V R (evaluate env setting (.var v)) (evaluate env' setting (.var v)) := by
  simp only [evaluate, hbindings]
  cases env'.bindings.get? v with
  | some source => exact .pure (hV _)
  | none => exact .ofExcept (.error _ _)

theorem evaluate_unary_related {op : UnaryOp} {operand operand' : Expr K}
    (hop : op.Respects V)
    (h : Related V R (evaluate env setting operand) (evaluate env' setting operand')) :
    Related V R (evaluate env setting (.unary op operand))
      (evaluate env' setting (.unary op operand')) := by
  simp only [evaluate]
  exact h.bind fun x x' hx => .pure (hop x x' hx)

theorem evaluate_binary_related {op : BinaryOp} {left left' right right' : Expr K}
    (htolerances : env.tolerances = env'.tolerances) (hop : op.Respects V env.tolerances)
    (hleft : Related V R (evaluate env setting left) (evaluate env' setting left'))
    (hright : Related V R (evaluate env setting right) (evaluate env' setting right')) :
    Related V R (evaluate env setting (.binary op left right))
      (evaluate env' setting (.binary op left' right')) := by
  simp only [evaluate, ← htolerances]
  exact hleft.bind fun x x' hx => hright.bind fun y y' hy => .ofExcept (hop x x' y y' hx hy)

theorem evaluate_cond_related
    {condition condition' whenTrue whenTrue' whenFalse whenFalse' : Expr K}
    (hV : ∀ x y, V x y → (Scalar.isTrue x : Bool) = Scalar.isTrue y)
    (hcondition : Related V R (evaluate env setting condition) (evaluate env' setting condition'))
    (htrue : Related V R (evaluate env setting whenTrue) (evaluate env' setting whenTrue'))
    (hfalse : Related V R (evaluate env setting whenFalse) (evaluate env' setting whenFalse')) :
    Related V R (evaluate env setting (.cond condition whenTrue whenFalse))
      (evaluate env' setting (.cond condition' whenTrue' whenFalse')) := by
  simp only [evaluate]
  refine hcondition.bind fun x y hxy => ?_
  rw [hV x y hxy]
  split
  · exact htrue
  · exact hfalse

theorem evaluateEach_cons_related {e e' : Expr K} {rest rest' : List (Expr K)}
    (hfirst : Related V R (evaluate env setting e) (evaluate env' setting e'))
    (hrest : Related (Forall₂ V) R (evaluateEach env setting rest)
      (evaluateEach env' setting rest')) :
    Related (Forall₂ V) R (evaluateEach env setting (e :: rest))
      (evaluateEach env' setting (e' :: rest')) := by
  simp only [evaluateEach]
  exact hfirst.bind fun x x' hx => hrest.bind fun xs xs' hxs => .pure (.cons hx hxs)

theorem evaluateEach_map_related {es : List (Expr K)} {f : Expr K → Expr K}
    (h : ∀ e ∈ es, Related V R (evaluate env setting e) (evaluate env' setting (f e))) :
    Related (Forall₂ V) R (evaluateEach env setting es) (evaluateEach env' setting (es.map f)) := by
  induction es with
  | nil =>
    simp only [evaluateEach, List.map_nil]
    exact .pure .nil
  | cons e rest ih =>
    exact evaluateEach_cons_related (h e (by simp)) (ih fun x hx => h x (by simp [hx]))

/-- There are as many values as expressions. -/
theorem evaluateEach_length {es : List (Expr K)} {values : List D}
    (h : (evaluateEach env setting es).Meets values) : values.length = es.length := by
  obtain ⟨host, host', h⟩ := h
  induction es generalizing values host with
  | nil =>
    rw [evaluateEach, outcome_pure] at h
    cases h
    rfl
  | cons e rest ih =>
    rw [evaluateEach, outcome_bind_eq_ok] at h
    obtain ⟨x, host₁, -, h⟩ := h
    rw [outcome_bind_eq_ok] at h
    obtain ⟨xs, host₂, hrest, h⟩ := h
    cases h
    rw [List.length_cons, List.length_cons, ih _ hrest]

theorem evaluate_call_related {name : String} {arguments arguments' : List (Expr K)}
    (hfunctions : env.functions = env'.functions) (hlength : arguments.length = arguments'.length)
    (hnative : ∀ d, env.functions.resolve name arguments.length = .ok d →
      Native.Respects V R arguments.length (env.natives d.native) (env'.natives d.native))
    (h : Related (Forall₂ V) R (evaluateEach env setting arguments)
      (evaluateEach env' setting arguments')) :
    Related V R (evaluate env setting (.call name arguments))
      (evaluate env' setting (.call name arguments')) := by
  simp only [evaluate, ← hfunctions, ← hlength]
  have hresolve : Related
      (fun d d' => d = d' ∧ env.functions.resolve name arguments.length = .ok d) R
      (Run.ofExcept (env.functions.resolve name arguments.length))
      (Run.ofExcept (env.functions.resolve name arguments.length)) := by
    refine .ofExcept ?_
    cases env.functions.resolve name arguments.length with
    | ok d => exact .ok ⟨rfl, rfl⟩
    | error e => exact .error e e
  refine hresolve.bind fun d d' hd => ?_
  obtain ⟨rfl, hok⟩ := hd
  refine h.meets.bind fun xs ys hxs => ?_
  obtain ⟨hxs, hmeets⟩ := hxs
  exact .ofCall (hnative d hok xs ys (evaluateEach_length hmeets) hxs)

end Expr

end CircuitExpr
