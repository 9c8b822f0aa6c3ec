import Mathlib
import CircuitExpr.Proofs.Evaluation.Recording
import CircuitExpr.Proofs.Function.Library
import CircuitExpr.Proofs.Simplify.Similar

/-!
# Evaluation with pure functions

A pure function has no state: its value depends on its arguments alone. If all registered
functions are pure, and the handler of extension nodes as well where there are any, so is
evaluation. Whatever the state of the host, it ends in the same way, leaves that state as it is,
and makes the same calls.

## Main statements

* `Environment.PureFor` — functions are pure, and the extension nodes of an expression are
* `Run.Traces` — how a computation ends from any state, and which calls it makes
* `Expr.evaluate_stateless` — every evaluation has a trace
* `Expr.exists_value` — and the same value, if any, in every state of the host
-/

namespace CircuitExpr

/-- The value of a registered function depends on its arguments alone. -/
def Environment.PureFunctions {K D σ : Type} (env : Environment K D σ) : Prop :=
  ∀ name d, env.functions.get? name = some d → ∀ values, ∃ x,
    ∀ host, (env.natives d.native values).run host = (x, host)

/-- So does what an extension node ends with. -/
def Environment.PureExtension {K D σ : Type} (env : Environment K D σ) : Prop :=
  ∀ handler, env.extension = some handler → ∀ name values, ∃ r,
    ∀ host, (handler name values).outcome host = (r, host)

/-- Nothing that is called for an expression has a state. -/
structure Environment.PureFor {K D σ : Type} (env : Environment K D σ) (e : Expr K) : Prop where
  functions : env.PureFunctions
  /-- The handler is pure, unless there is nothing for it to do. -/
  extension : e.Plain ∨ env.PureExtension

theorem Environment.PureFunctions.of_resolve {K D σ : Type} {env : Environment K D σ}
    (h : env.PureFunctions) {name : String} {count : Nat} {d : FunctionDefinition K}
    (hd : env.functions.resolve name count = .ok d) (values : List D) :
    ∃ x, ∀ host, (env.natives d.native values).run host = (x, host) :=
  h name d (FunctionTable.resolve_eq_ok_iff.mp hd).1 values

/-! ### The parts of an expression -/

namespace Environment.PureFor

variable {K D σ : Type} {env : Environment K D σ} {operand left right condition whenTrue : Expr K}
  {whenFalse a : Expr K} {arguments : List (Expr K)} {name : String}

theorem unary {op : UnaryOp} (h : env.PureFor (.unary op operand)) : env.PureFor operand := by
  refine ⟨h.functions, h.extension.imp_left fun hplain => ?_⟩
  cases hplain with
  | unary _ hoperand => exact hoperand

theorem binary {op : BinaryOp} (h : env.PureFor (.binary op left right)) :
    env.PureFor left ∧ env.PureFor right := by
  obtain ⟨hfunctions, hplain | hext⟩ := h
  · cases hplain with
    | binary _ hleft hright => exact ⟨⟨hfunctions, .inl hleft⟩, ⟨hfunctions, .inl hright⟩⟩
  · exact ⟨⟨hfunctions, .inr hext⟩, ⟨hfunctions, .inr hext⟩⟩

theorem cond (h : env.PureFor (.cond condition whenTrue whenFalse)) :
    env.PureFor condition ∧ env.PureFor whenTrue ∧ env.PureFor whenFalse := by
  obtain ⟨hfunctions, hplain | hext⟩ := h
  · cases hplain with
    | cond hc ht hf =>
      exact ⟨⟨hfunctions, .inl hc⟩, ⟨hfunctions, .inl ht⟩, ⟨hfunctions, .inl hf⟩⟩
  · exact ⟨⟨hfunctions, .inr hext⟩, ⟨hfunctions, .inr hext⟩, ⟨hfunctions, .inr hext⟩⟩

theorem call (h : env.PureFor (.call name arguments)) (ha : a ∈ arguments) : env.PureFor a := by
  refine ⟨h.functions, h.extension.imp_left fun hplain => ?_⟩
  cases hplain with
  | call _ hall => exact hall a ha

/-- An expression with an extension node has a pure handler. -/
theorem handler (h : env.PureFor (.ext name arguments)) : env.PureExtension :=
  h.extension.resolve_left nofun

theorem ext (h : env.PureFor (.ext name arguments)) : env.PureFor a :=
  ⟨h.functions, .inr h.handler⟩

end Environment.PureFor

/-! ## Traces -/

namespace Run

variable {D σ α β : Type} {x : Run (σ × List (Call D)) α} {k : α → Run (σ × List (Call D)) β}
  {r : Except ExpressionError β} {new more : List (Call D)} {a : α} {b : β}
  {e : ExpressionError}

/-- From any state of the host the computation ends with this result and makes these calls. -/
def Traces (x : Run (σ × List (Call D)) α) (r : Except ExpressionError α)
    (new : List (Call D)) : Prop :=
  ∀ host calls, x.outcome (host, calls) = (r, (host, calls ++ new))

/-- How the computation ends and which calls it makes does not depend on the host. -/
def Stateless (x : Run (σ × List (Call D)) α) : Prop := ∃ r new, x.Traces r new

theorem traces_pure (a : α) : (pure a : Run (σ × List (Call D)) α).Traces (.ok a) [] := by
  intro host calls
  rw [outcome_pure, List.append_nil]

theorem traces_ofExcept (r : Except ExpressionError α) :
    (ofExcept r : Run (σ × List (Call D)) α).Traces r [] := by
  intro host calls
  rw [outcome_ofExcept, List.append_nil]

theorem Traces.bind (h : x.Traces (.ok a) new) (hk : (k a).Traces r more) :
    (x >>= k).Traces r (new ++ more) := by
  intro host calls
  rw [outcome_bind_ok (h host calls), hk, List.append_assoc]

theorem Traces.bind_error (h : x.Traces (.error e) new) : (x >>= k).Traces (.error e) new :=
  fun host calls => outcome_bind_error (h host calls)

theorem Stateless.bind (h : x.Stateless) (hk : ∀ a, (k a).Stateless) : (x >>= k).Stateless := by
  obtain ⟨result, new, hx⟩ := h
  cases result with
  | ok a =>
    obtain ⟨r, more, hr⟩ := hk a
    exact ⟨r, new ++ more, hx.bind hr⟩
  | error e => exact ⟨_, new, hx.bind_error⟩

/-- A chain of stateless steps that succeeds is a success of each, one after the other. -/
theorem Traces.of_bind [Nonempty σ] (hx : x.Stateless) (hk : ∀ a, (k a).Stateless)
    (h : (x >>= k).Traces (.ok b) new) :
    ∃ a first second, new = first ++ second ∧ x.Traces (.ok a) first ∧
      (k a).Traces (.ok b) second := by
  -- both traces are read off one run, from any state that the host has
  obtain ⟨host⟩ := ‹Nonempty σ›
  obtain ⟨result, first, hfirst⟩ := hx
  cases result with
  | error e => exact nomatch (h host []).symm.trans (hfirst.bind_error (k := k) host [])
  | ok a =>
    obtain ⟨r, second, hsecond⟩ := hk a
    have hsame := (h host []).symm.trans (hfirst.bind hsecond host [])
    obtain ⟨hr, -, hnew⟩ : .ok b = r ∧ host = host ∧ new = first ++ second := by
      simpa using hsame
    subst hr
    exact ⟨a, first, second, hnew, hfirst, hsecond⟩

end Run

/-! ## Evaluation -/

namespace Expr

open Run

variable {K D σ : Type} [Literal K] [Scalar D K] {env : Environment K D σ} {setting : Setting D}

theorem evaluateEach_stateless {es : List (Expr K)}
    (h : ∀ e ∈ es, (evaluate env.recorded setting e).Stateless) :
    (evaluateEach env.recorded setting es).Stateless := by
  induction es with
  | nil =>
    rw [evaluateEach]
    exact ⟨_, _, traces_pure _⟩
  | cons e rest ih =>
    rw [evaluateEach]
    obtain ⟨he, hrest⟩ := List.forall_mem_cons.mp h
    exact he.bind fun x => (ih hrest).bind fun xs => ⟨_, _, traces_pure _⟩

omit [Literal K] [Scalar D K] in
/-- A call of a pure function is all that is noted down. -/
theorem traces_native (hpure : env.PureFunctions) {name : String} {count : Nat}
    {d : FunctionDefinition K} (hd : env.functions.resolve name count = .ok d) (values : List D) :
    ∃ x, (Run.ofCall (env.recorded.natives d.native values)).Traces (.ok x)
      [⟨d.native, values⟩] := by
  obtain ⟨x, hx⟩ := hpure.of_resolve hd values
  refine ⟨x, fun host calls => ?_⟩
  have hcall : (env.recorded.natives d.native values).run (host, calls) =
      (((env.natives d.native values).run host).1,
        (((env.natives d.native values).run host).2, calls ++ [⟨d.native, values⟩])) := rfl
  rw [outcome_ofCall, hcall, hx]

omit [Literal K] [Scalar D K] in
/-- A pure extension node is evaluated beside the calls, without any. -/
theorem extension_stateless (hpure : env.PureExtension) {handler : ExtensionHandler D σ}
    (h : env.extension = some handler) (name : String) (values : List D) :
    ((handler name values).beside : Run (σ × List (Call D)) D).Stateless := by
  obtain ⟨r, hr⟩ := hpure handler h name values
  refine ⟨r, [], fun host calls => ?_⟩
  have hbeside : ((handler name values).beside : Run (σ × List (Call D)) D).outcome (host, calls) =
      (((handler name values).outcome host).1, (((handler name values).outcome host).2, calls)) :=
    rfl
  rw [hbeside, hr, List.append_nil]

/-- **With pure functions every evaluation has a trace**, whatever the state of the host. -/
theorem evaluate_stateless {e : Expr K} (hpure : env.PureFor e) (setting : Setting D) :
    (evaluate env.recorded setting e).Stateless := by
  induction e using Expr.induction with
  | const value =>
    rw [evaluate]
    exact ⟨_, _, traces_pure _⟩
  | var v =>
    rw [evaluate]
    split
    · exact ⟨_, _, traces_pure _⟩
    · exact ⟨_, _, traces_ofExcept _⟩
  | unary op operand ih =>
    rw [evaluate]
    exact (ih hpure.unary).bind fun x => ⟨_, _, traces_pure _⟩
  | binary op left right ihl ihr =>
    rw [evaluate]
    exact (ihl hpure.binary.1).bind fun x =>
      (ihr hpure.binary.2).bind fun y => ⟨_, _, traces_ofExcept _⟩
  | cond condition whenTrue whenFalse ihc iht ihf =>
    obtain ⟨hc, ht, hf⟩ := hpure.cond
    rw [evaluate]
    refine (ihc hc).bind fun x => ?_
    split
    · exact iht ht
    · exact ihf hf
  | call name arguments ih =>
    cases hd : env.recorded.functions.resolve name arguments.length with
    | error e =>
      rw [evaluate_call_of_error hd]
      exact ⟨_, _, traces_ofExcept _⟩
    | ok d =>
      rw [evaluate_call_of_ok hd]
      refine (evaluateEach_stateless fun a ha => ih a ha (hpure.call ha)).bind fun values => ?_
      obtain ⟨x, hx⟩ := traces_native hpure.functions hd values
      exact ⟨_, _, hx⟩
  | ext name arguments ih =>
    rw [evaluate, Environment.recorded_extension]
    cases hhandler : env.extension with
    | none => exact ⟨_, _, traces_ofExcept _⟩
    | some handler =>
      exact (evaluateEach_stateless fun a ha => ih a ha hpure.ext).bind
        (extension_stateless hpure.handler hhandler name)

/-- **With pure functions an evaluation has one value or none**, and leaves the host as it is. -/
theorem exists_value {e : Expr K} (hpure : env.PureFor e) (setting : Setting D) :
    ∃ x : Option D, ∀ host, ((evaluate env setting e).outcome host).1.toOption = x ∧
      ((evaluate env setting e).outcome host).2 = host := by
  obtain ⟨r, new, h⟩ := evaluate_stateless hpure setting
  refine ⟨r.toOption, fun host => ?_⟩
  obtain ⟨hagree, hhost⟩ := evaluate_recorded env setting e (host, []) host rfl
  rw [h] at hagree hhost
  refine ⟨?_, Eq.symm hhost⟩
  revert hagree
  generalize ((evaluate env setting e).outcome host).1 = result
  intro hagree
  cases hagree with
  | ok hvalue => rw [hvalue]
  | error e e' => rfl

end Expr

end CircuitExpr
