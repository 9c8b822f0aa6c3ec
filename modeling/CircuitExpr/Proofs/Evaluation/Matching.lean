import Mathlib
import CircuitExpr.Proofs.Evaluation.Outcome

/-!
# Matching evaluations

Two evaluations match when, from related states of their hosts, both end with the very same value
or both fail for causes that belong together, in related states again. This is sharper than being
related (`Run.Related`), where nothing is said of the causes. Again there is one theorem for each
form of an expression; that the two environments match, `Environment.Matches`, is asked once.

What an evaluation asks of its host is listed as events: the calls of registered functions and the
extension nodes that are handed to the handler, in one list, in their order. An environment that is
watched notes them down, and matches the environment that is not.

## Main statements

* `Run.Matches`, `Environment.Matches` — the same values, causes that belong together
* one theorem for each form of an expression, such as `evaluate_cond_matches`
* `Event`, `Environment.watched` — what is asked of the host
* `evaluate_watched` — being watched changes nothing else
-/

namespace CircuitExpr

/-- Both end with the same value, or both fail for causes that belong together. -/
inductive SameEnd {α : Type} (E : ExpressionError → ExpressionError → Prop) :
    Except ExpressionError α → Except ExpressionError α → Prop where
  | ok (a : α) : SameEnd E (.ok a) (.ok a)
  | error {x y : ExpressionError} (h : E x y) : SameEnd E (.error x) (.error y)

section SameEnd

variable {α : Type} {E : ExpressionError → ExpressionError → Prop}

theorem SameEnd.refl (hE : ∀ x, E x x) (r : Except ExpressionError α) : SameEnd E r r := by
  cases r with
  | ok a => exact .ok a
  | error x => exact .error (hE x)

theorem SameEnd.eq {r r' : Except ExpressionError α} (h : SameEnd Eq r r') : r = r' := by
  cases h with
  | ok a => rfl
  | error h => rw [h]

end SameEnd

/-! ## Matching computations -/

namespace Run

variable {σ τ α β : Type} {E : ExpressionError → ExpressionError → Prop} {R : σ → τ → Prop}

/-- From related states both end in the same way, in related states. -/
def Matches (E : ExpressionError → ExpressionError → Prop) (R : σ → τ → Prop) (x : Run σ α)
    (y : Run τ α) : Prop :=
  ∀ s t, R s t → SameEnd E (x.outcome s).1 (y.outcome t).1 ∧ R (x.outcome s).2 (y.outcome t).2

theorem Matches.pure (a : α) :
    Matches E R (Pure.pure a : Run σ α) (Pure.pure a : Run τ α) :=
  fun _ _ hst => ⟨.ok a, hst⟩

theorem Matches.ofExcept {r r' : Except ExpressionError α} (h : SameEnd E r r') :
    Matches E R (Run.ofExcept r : Run σ α) (Run.ofExcept r' : Run τ α) :=
  fun _ _ hst => ⟨h, hst⟩

theorem Matches.refl (hE : ∀ x, E x x) (x : Run σ α) : Matches E Eq x x := by
  rintro s _ rfl
  exact ⟨.refl hE _, rfl⟩

theorem Matches.bind {x : Run σ α} {y : Run τ α} {f : α → Run σ β} {g : α → Run τ β}
    (h : Matches E R x y) (hfg : ∀ a, Matches E R (f a) (g a)) :
    Matches E R (x >>= f) (y >>= g) := by
  intro s t hst
  obtain ⟨hend, hstate⟩ := h s t hst
  rcases hx : x.outcome s with ⟨r, s'⟩
  rcases hy : y.outcome t with ⟨r', t'⟩
  rw [hx, hy] at hend hstate
  cases hend with
  | ok a =>
    rw [outcome_bind_ok hx, outcome_bind_ok hy]
    exact hfg a s' t' hstate
  | error he =>
    rw [outcome_bind_error hx, outcome_bind_error hy]
    exact ⟨.error he, hstate⟩

end Run

/-- Environments with the same entries, whose functions and handlers match. -/
structure Environment.Matches {K D σ τ : Type} (E : ExpressionError → ExpressionError → Prop)
    (R : σ → τ → Prop) (env : Environment K D σ) (env' : Environment K D τ) : Prop where
  bindings : env.bindings = env'.bindings
  functions : env.functions = env'.functions
  tolerances : env.tolerances = env'.tolerances
  natives : ∀ f values,
    Run.Matches E R (Run.ofCall (env.natives f values)) (Run.ofCall (env'.natives f values))
  extension : Option.Rel
    (fun handler handler' => ∀ name values, Run.Matches E R (handler name values)
      (handler' name values)) env.extension env'.extension

theorem Environment.Matches.refl {K D σ : Type} {E : ExpressionError → ExpressionError → Prop}
    (hE : ∀ x, E x x) (env : Environment K D σ) : Environment.Matches E Eq env env where
  bindings := rfl
  functions := rfl
  tolerances := rfl
  natives _ _ := .refl hE _
  extension := by
    cases env.extension with
    | none => exact .none
    | some handler => exact .some fun _ _ => .refl hE _

/-! ## Expressions, form by form -/

namespace Expr

open Run

section Forms

variable {K D σ τ : Type} [Literal K] [Scalar D K] {env : Environment K D σ}
  {env' : Environment K D τ} {setting : Setting D}
  {E : ExpressionError → ExpressionError → Prop} {R : σ → τ → Prop}

theorem evaluate_const_matches (value : K) :
    Matches E R (evaluate env setting (.const value)) (evaluate env' setting (.const value)) := by
  rw [evaluate, evaluate]
  exact .pure _

theorem evaluate_var_matches (hE : ∀ x, E x x) (henv : env.Matches E R env') (v : Variable) :
    Matches E R (evaluate env setting (.var v)) (evaluate env' setting (.var v)) := by
  rw [evaluate, evaluate, henv.bindings]
  cases env'.bindings.get? v with
  | some source => exact .pure _
  | none => exact .ofExcept (.error (hE _))

theorem evaluate_unary_matches {op : UnaryOp} {operand operand' : Expr K}
    (h : Matches E R (evaluate env setting operand) (evaluate env' setting operand')) :
    Matches E R (evaluate env setting (.unary op operand))
      (evaluate env' setting (.unary op operand')) := by
  rw [evaluate, evaluate]
  exact h.bind fun x => .pure _

theorem evaluate_binary_matches (hE : ∀ x, E x x) (henv : env.Matches E R env') {op : BinaryOp}
    {left left' right right' : Expr K}
    (hleft : Matches E R (evaluate env setting left) (evaluate env' setting left'))
    (hright : Matches E R (evaluate env setting right) (evaluate env' setting right')) :
    Matches E R (evaluate env setting (.binary op left right))
      (evaluate env' setting (.binary op left' right')) := by
  rw [evaluate, evaluate, henv.tolerances]
  exact hleft.bind fun x => hright.bind fun y => .ofExcept (.refl hE _)

theorem evaluate_cond_matches {condition condition' whenTrue whenTrue' whenFalse whenFalse' : Expr K}
    (hcondition : Matches E R (evaluate env setting condition) (evaluate env' setting condition'))
    (htrue : Matches E R (evaluate env setting whenTrue) (evaluate env' setting whenTrue'))
    (hfalse : Matches E R (evaluate env setting whenFalse) (evaluate env' setting whenFalse')) :
    Matches E R (evaluate env setting (.cond condition whenTrue whenFalse))
      (evaluate env' setting (.cond condition' whenTrue' whenFalse')) := by
  rw [evaluate, evaluate]
  refine hcondition.bind fun x => ?_
  split
  · exact htrue
  · exact hfalse

theorem evaluateEach_map_matches {es : List (Expr K)} {f : Expr K → Expr K}
    (h : ∀ e ∈ es, Matches E R (evaluate env setting e) (evaluate env' setting (f e))) :
    Matches E R (evaluateEach env setting es) (evaluateEach env' setting (es.map f)) := by
  induction es with
  | nil =>
    rw [List.map_nil, evaluateEach, evaluateEach]
    exact .pure []
  | cons e rest ih =>
    obtain ⟨he, hrest⟩ := List.forall_mem_cons.mp h
    rw [List.map_cons, evaluateEach, evaluateEach]
    exact he.bind fun x => (ih hrest).bind fun xs => .pure _

theorem evaluate_call_matches (hE : ∀ x, E x x) (henv : env.Matches E R env') {name : String}
    {arguments arguments' : List (Expr K)} (hlength : arguments.length = arguments'.length)
    (h : Matches E R (evaluateEach env setting arguments)
      (evaluateEach env' setting arguments')) :
    Matches E R (evaluate env setting (.call name arguments))
      (evaluate env' setting (.call name arguments')) := by
  rw [evaluate, evaluate, henv.functions, hlength]
  have hresolve : Matches E R
      (Run.ofExcept (env'.functions.resolve name arguments'.length) : Run σ _)
      (Run.ofExcept (env'.functions.resolve name arguments'.length) : Run τ _) :=
    .ofExcept (.refl hE _)
  exact hresolve.bind fun d => h.bind fun values => henv.natives d.native values

/-- Without a handler the two nodes are named, in their written forms. -/
theorem evaluate_ext_matches (henv : env.Matches E R env') {name : String}
    {arguments arguments' : List (Expr K)}
    (hnode : E (.unrecognizedNode (Expr.ext name arguments).text)
      (.unrecognizedNode (Expr.ext name arguments').text))
    (h : Matches E R (evaluateEach env setting arguments)
      (evaluateEach env' setting arguments')) :
    Matches E R (evaluate env setting (.ext name arguments))
      (evaluate env' setting (.ext name arguments')) := by
  rw [evaluate, evaluate]
  have hextension := henv.extension
  revert hextension
  cases env.extension with
  | none =>
    intro hextension
    cases henv' : env'.extension with
    | none => exact .ofExcept (.error hnode)
    | some handler' => rw [henv'] at hextension; cases hextension
  | some handler =>
    intro hextension
    cases henv' : env'.extension with
    | none => rw [henv'] at hextension; cases hextension
    | some handler' =>
      rw [henv'] at hextension
      cases hextension with
      | some hhandler => exact h.bind fun values => hhandler name values

end Forms

end Expr

/-! ## Events -/

/-- Something that is asked of the host, and what came of it. -/
inductive Event (D : Type) where
  /-- A registered function was called. -/
  | called (function : Native) (arguments : List D) (value : D)
  /-- An extension node was handed to the handler. -/
  | handled (name : String) (arguments : List D) (result : Except ExpressionError D)

section Watched

variable {K D σ : Type}

/-- The same functions, which note down that they are called. -/
def watchCalls (natives : Native → List D → StateM σ D) :
    Native → List D → StateM (σ × List (Event D)) D :=
  fun f arguments (host, events) =>
    let (value, host) := (natives f arguments).run host
    (value, (host, events ++ [.called f arguments value]))

/-- The same handler, which notes down that a node was handed to it. -/
def watchHandler (handler : ExtensionHandler D σ) : ExtensionHandler D (σ × List (Event D)) :=
  fun name arguments => ExceptT.mk fun (host, events) =>
    let (result, host) := (handler name arguments).outcome host
    (result, (host, events ++ [.handled name arguments result]))

/-- The environment that notes down what is asked of its host. -/
def Environment.watched (env : Environment K D σ) : Environment K D (σ × List (Event D)) where
  bindings := env.bindings
  functions := env.functions
  tolerances := env.tolerances
  natives := watchCalls env.natives
  extension := env.extension.map watchHandler

/-- The state beside the events is the one of the host that is not watched. -/
abbrev Unwatched (s : σ × List (Event D)) (t : σ) : Prop := s.1 = t

theorem Environment.watched_matches (env : Environment K D σ) :
    env.watched.Matches Eq Unwatched env where
  bindings := rfl
  functions := rfl
  tolerances := rfl
  natives f values := by
    rintro s _ rfl
    exact ⟨.ok _, rfl⟩
  extension := by
    show Option.Rel _ (env.extension.map watchHandler) env.extension
    cases env.extension with
    | none => exact .none
    | some handler =>
      refine .some fun name values => ?_
      rintro s _ rfl
      exact ⟨.refl (fun _ => rfl) _, rfl⟩

end Watched

namespace Expr

open Run

variable {K D σ : Type} [Literal K] [Scalar D K]

/-- **Being watched, an evaluation ends as it does anyway.** -/
theorem evaluate_watched (env : Environment K D σ) (setting : Setting D) (e : Expr K) :
    Matches Eq Unwatched (evaluate env.watched setting e) (evaluate env setting e) := by
  have henv := env.watched_matches
  have hE : ∀ x : ExpressionError, x = x := fun _ => rfl
  induction e using Expr.induction with
  | const value => exact evaluate_const_matches value
  | var v => exact evaluate_var_matches hE henv v
  | unary op operand ih => exact evaluate_unary_matches ih
  | binary op left right ihl ihr => exact evaluate_binary_matches hE henv ihl ihr
  | cond condition whenTrue whenFalse ihc iht ihf => exact evaluate_cond_matches ihc iht ihf
  | call name arguments ih =>
    have heach := evaluateEach_map_matches (f := id) ih
    rw [List.map_id] at heach
    exact evaluate_call_matches hE henv rfl heach
  | ext name arguments ih =>
    have heach := evaluateEach_map_matches (f := id) ih
    rw [List.map_id] at heach
    exact evaluate_ext_matches henv rfl heach

/-- How a watched evaluation ends, and the state in which it leaves the host. -/
theorem outcome_watched (env : Environment K D σ) (setting : Setting D) (e : Expr K) (host : σ)
    (events : List (Event D)) :
    ((evaluate env.watched setting e).outcome (host, events)).1 =
        ((evaluate env setting e).outcome host).1 ∧
      ((evaluate env.watched setting e).outcome (host, events)).2.1 =
        ((evaluate env setting e).outcome host).2 := by
  obtain ⟨hend, hhost⟩ := evaluate_watched env setting e (host, events) host rfl
  exact ⟨hend.eq, hhost⟩

end Expr

end CircuitExpr
