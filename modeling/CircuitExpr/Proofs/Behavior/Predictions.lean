import Mathlib
import CircuitExpr.Proofs.Behavior.Checks
import CircuitExpr.Proofs.Behavior.Steady
import CircuitExpr.Proofs.Evaluation.Matching

/-!
# What the checks foresee

The checks look at the whole expression, both values of a conditional included, and read no source.
An evaluation goes only through the values that are chosen, and a host may make it fail. Still the
checks foresee every evaluation: what passes them fails at the handler of extension nodes only, and
what fails elsewhere does not pass them.

That it is the handler which fails is said by the events of the watched evaluation: the last thing
that is asked of the host is an extension node, and it fails for this very cause.

Which cause the checks name is another matter. They look at the operator before the operands, and at
the values that are not chosen. Where there is no conditional and no operator is lacking, they name
the cause for which the evaluation fails.

## Main statements

* `HandlerFailed` — the handler has just failed for a cause
* `Run.FailsByHandler` — a computation that fails at the handler only; an expression that passes the
  checks is evaluated by one
* `Run.Reports` — a computation that fails for one cause or never; the one of the checks
* `Foreseen`, `checks_foresee` — all of it, in every domain
-/

namespace CircuitExpr

/-! ## Failing at the handler -/

section Failing

variable {K D σ α β : Type}

/-- The last thing that was asked of the host is an extension node, and it failed for this cause. -/
def HandlerFailed (events : List (Event D)) (x : ExpressionError) : Prop :=
  ∃ name arguments, events.getLast? = some (.handled name arguments (.error x))

namespace Run

/-- If the computation fails, the handler has just failed for the same cause. -/
def FailsByHandler (m : Run (σ × List (Event D)) α) : Prop :=
  ∀ s x s', m.outcome s = (.error x, s') → HandlerFailed s'.2 x

theorem FailsByHandler.pure (a : α) :
    (Pure.pure a : Run (σ × List (Event D)) α).FailsByHandler :=
  fun _ _ _ h => nomatch h

theorem FailsByHandler.ofExcept {r : Except ExpressionError α} (h : ∃ a, r = .ok a) :
    (Run.ofExcept r : Run (σ × List (Event D)) α).FailsByHandler := by
  obtain ⟨a, rfl⟩ := h
  exact .pure a

theorem FailsByHandler.ofCall (m : StateM (σ × List (Event D)) α) :
    (Run.ofCall m).FailsByHandler :=
  fun _ _ _ h => nomatch h

theorem FailsByHandler.bind {m : Run (σ × List (Event D)) α}
    {f : α → Run (σ × List (Event D)) β} (hm : m.FailsByHandler)
    (hf : ∀ a, (f a).FailsByHandler) : (m >>= f).FailsByHandler := by
  intro s x s' h
  rcases hrun : m.outcome s with ⟨y | a, s₁⟩
  · rw [outcome_bind_error hrun] at h
    cases h
    exact hm s _ _ hrun
  · rw [outcome_bind_ok hrun] at h
    exact hf a s₁ x s' h

/-- A watched handler notes down what it fails with. -/
theorem watchHandler_failsByHandler (handler : ExtensionHandler D σ) (name : String)
    (arguments : List D) : (watchHandler handler name arguments).FailsByHandler := by
  rintro ⟨host, events⟩ x s' h
  obtain ⟨hresult, hstate⟩ := Prod.mk.inj h
  subst hstate
  exact ⟨name, arguments, hresult ▸ List.getLast?_concat ..⟩

end Run

namespace Expr

open Run

variable [Literal K] [Scalar D K] {env : Environment K D σ} {setting : Setting D}

theorem evaluateEach_failsByHandler {es : List (Expr K)}
    (h : ∀ e ∈ es, (evaluate env.watched setting e).FailsByHandler) :
    (evaluateEach env.watched setting es).FailsByHandler := by
  induction es with
  | nil =>
    rw [evaluateEach]
    exact .pure _
  | cons e rest ih =>
    rw [evaluateEach]
    obtain ⟨he, hrest⟩ := List.forall_mem_cons.mp h
    exact he.bind fun x => (ih hrest).bind fun xs => .pure _

/-- **What passes the checks fails at the handler only**, whatever the setting and the host. -/
theorem evaluate_failsByHandler (hcompare : Scalar.ComparesOrdered D) {e : Expr K}
    (h : e.validate env = .ok ()) (setting : Setting D) :
    (evaluate env.watched setting e).FailsByHandler := by
  induction e using Expr.induction with
  | const value =>
    rw [evaluate]
    exact .pure _
  | var v =>
    -- a variable that passes is bound, and a source has a value at every setting
    have hbound : (env.bindings.get? v).isSome = true := by
      by_contra hunbound
      rw [validate, Bindings.contains, if_neg hunbound] at h
      cases h
    obtain ⟨source, hsource⟩ := Option.isSome_iff_exists.mp hbound
    rw [evaluate, Environment.watched, hsource]
    exact .pure _
  | unary op operand ih =>
    rw [validate] at h
    rw [evaluate]
    exact (ih h).bind fun x => .pure _
  | binary op left right ihl ihr =>
    obtain ⟨hop, hl, hr⟩ := validate_binary_eq_ok.mp h
    rw [evaluate]
    exact (ihl hl).bind fun x => (ihr hr).bind fun y =>
      .ofExcept (BinaryOp.exists_apply_eq_ok hcompare hop _ x y)
  | cond condition whenTrue whenFalse ihc iht ihf =>
    obtain ⟨hc, ht, hf⟩ := validate_cond_eq_ok.mp h
    rw [evaluate]
    refine (ihc hc).bind fun x => ?_
    -- whichever value is chosen, it has been looked at
    split
    · exact iht ht
    · exact ihf hf
  | call name arguments ih =>
    obtain ⟨⟨d, hd⟩, harguments⟩ := validate_call_eq_ok.mp h
    have hwatched : env.watched.functions.resolve name arguments.length = .ok d := hd
    rw [evaluate_call_of_ok hwatched]
    exact (evaluateEach_failsByHandler fun e he => ih e he (harguments e he)).bind fun values =>
      .ofCall _
  | ext name arguments ih =>
    obtain ⟨hhandler, harguments⟩ := validate_ext_eq_ok.mp h
    obtain ⟨handler, hhandler⟩ :=
      Option.isSome_iff_exists.mp (Option.isNone_eq_false_iff.mp hhandler)
    have hwatched : env.watched.extension = some (watchHandler handler) :=
      congrArg (Option.map watchHandler) hhandler
    rw [evaluate, hwatched]
    exact (evaluateEach_failsByHandler fun e he => ih e he (harguments e he)).bind fun values =>
      watchHandler_failsByHandler handler name values

end Expr

end Failing

/-! ## Failing for one cause -/

section Reporting

variable {K D σ α β : Type}

namespace Run

/-- Whatever the state of the host, this is how the computation ends, its result left out. -/
def Reports (m : Run σ α) (v : Except ExpressionError Unit) : Prop :=
  ∀ host, verdict (m.outcome host).1 = v

theorem Reports.pure (a : α) : (Pure.pure a : Run σ α).Reports (.ok ()) := fun _ => rfl

theorem Reports.ofExcept (r : Except ExpressionError α) :
    (Run.ofExcept r : Run σ α).Reports (verdict r) := fun _ => rfl

theorem Reports.ofCall (m : StateM σ α) : (Run.ofCall m).Reports (.ok ()) := fun _ => rfl

theorem Reports.bind {m : Run σ α} {f : α → Run σ β} {v w : Except ExpressionError Unit}
    (hm : m.Reports v) (hf : ∀ a, (f a).Reports w) : (m >>= f).Reports (v >>= fun _ => w) := by
  intro host
  rw [← hm host]
  rcases hrun : m.outcome host with ⟨x | a, host'⟩
  · rw [outcome_bind_error hrun]
    rfl
  · rw [outcome_bind_ok hrun]
    exact hf a host'

/-- Behind a step that may fail, one that cannot fail changes nothing. -/
theorem Reports.bind_ok {m : Run σ α} {f : α → Run σ β} {v : Except ExpressionError Unit}
    (hm : m.Reports v) (hf : ∀ a, (f a).Reports (.ok ())) : (m >>= f).Reports v := by
  have h := hm.bind hf
  rwa [bind_unit_eq] at h

end Run

/-- The handler of extension nodes, if there is one, never fails. -/
def Environment.HandlerSucceeds (env : Environment K D σ) : Prop :=
  ∀ handler, env.extension = some handler →
    ∀ name arguments, (handler name arguments).Reports (.ok ())

namespace Expr

open Run

theorem conditionalsEach_eq_zero_iff {es : List (Expr K)} :
    conditionalsEach es = 0 ↔ ∀ e ∈ es, e.conditionals = 0 := by
  induction es with
  | nil => simp [conditionalsEach]
  | cons e rest ih => rw [conditionalsEach, Nat.add_eq_zero_iff, ih, List.forall_mem_cons]

variable [Literal K] [Scalar D K] {env : Environment K D σ} {setting : Setting D}

theorem evaluateEach_reports {es : List (Expr K)}
    (h : ∀ e ∈ es, (evaluate env setting e).Reports (validate env e)) :
    (evaluateEach env setting es).Reports (validateEach env es) := by
  induction es with
  | nil =>
    rw [evaluateEach, validateEach]
    exact .pure _
  | cons e rest ih =>
    rw [evaluateEach, validateEach]
    obtain ⟨he, hrest⟩ := List.forall_mem_cons.mp h
    exact he.bind fun x => (ih hrest).bind_ok fun xs => .pure _

/--
**Without conditionals evaluation fails for the cause that the checks name**, if no operator is
lacking and the handler does not fail.
-/
theorem evaluate_reports (hcompare : Scalar.ComparesOrdered D)
    (hordered : Scalar.ordered D = true) (hhandler : env.HandlerSucceeds) {e : Expr K}
    (he : e.conditionals = 0) (setting : Setting D) :
    (evaluate env setting e).Reports (validate env e) := by
  have hlacks : ∀ op, lacks D op = false := fun op => by
    rw [lacks, hordered, Bool.not_true, Bool.and_false]
  induction e using Expr.induction with
  | const value =>
    rw [evaluate, validate]
    exact .pure _
  | var v =>
    rw [evaluate, validate, Bindings.contains]
    cases env.bindings.get? v with
    | some source => exact .pure _
    | none => exact .ofExcept _
  | unary op operand ih =>
    rw [conditionals] at he
    rw [evaluate, validate]
    exact (ih he).bind_ok fun x => .pure _
  | binary op left right ihl ihr =>
    rw [conditionals, Nat.add_eq_zero_iff] at he
    rw [evaluate, validate, hlacks op, if_neg Bool.false_ne_true]
    refine (ihl he.1).bind fun x => (ihr he.2).bind_ok fun y => ?_
    obtain ⟨value, hvalue⟩ := BinaryOp.exists_apply_eq_ok hcompare (hlacks op) env.tolerances x y
    rw [hvalue]
    exact .ofExcept _
  | cond condition whenTrue whenFalse =>
    rw [conditionals] at he
    exact absurd he (Nat.succ_ne_zero _)
  | call name arguments ih =>
    rw [conditionals, conditionalsEach_eq_zero_iff] at he
    have harguments := evaluateEach_reports fun e hmem => ih e hmem (he e hmem)
    rw [evaluate, validate]
    show Reports _ (env.functions.resolve name arguments.length >>= _)
    cases env.functions.resolve name arguments.length with
    | error x => exact .ofExcept _
    | ok d => exact harguments.bind_ok fun values => .ofCall _
  | ext name arguments ih =>
    rw [conditionals, conditionalsEach_eq_zero_iff] at he
    have harguments := evaluateEach_reports fun e hmem => ih e hmem (he e hmem)
    rw [evaluate, validate]
    cases hextension : env.extension with
    | none => exact .ofExcept _
    | some handler => exact harguments.bind_ok fun values => hhandler handler hextension name values

end Expr

end Reporting

/-! ## All predictions -/

section Foreseen

variable {K D σ : Type} [Literal K] [Scalar D K]

/-- What an evaluation asks of the host, from this state of it on. -/
def Expr.events (env : Environment K D σ) (setting : Setting D) (e : Expr K) (host : σ) :
    List (Event D) :=
  ((e.evaluate env.watched setting).outcome (host, [])).2.2

/-- What the checks say about all evaluations of an expression. -/
structure Foreseen (env : Environment K D σ) (e : Expr K) : Prop where
  /-- Behind the checks there is a value, or the handler fails and nothing else does. -/
  passed : e.validate env = .ok () → ∀ setting host,
    (∃ x host', (e.evaluate env setting).outcome host = (.ok x, host')) ∨
      ∃ cause host', (e.evaluate env setting).outcome host = (.error cause, host') ∧
        HandlerFailed (e.events env setting host) cause
  /-- Without a handler the evaluator of the interpreter is made, and each call yields the value. -/
  called : e.validate env = .ok () → env.extension = none →
    ∃ evaluator, Evaluator.interpreted env e = .ok evaluator ∧ ∀ setting host, ∃ x host',
      (e.evaluate env setting).outcome host = (.ok x, host') ∧
        (evaluator.call setting).run host = ((x, evaluator), host')
  /-- What fails elsewhere than at the handler does not pass the checks. -/
  refused : ∀ setting host cause host',
    (e.evaluate env setting).outcome host = (.error cause, host') →
      ¬ HandlerFailed (e.events env setting host) cause → ∃ found, e.validate env = .error found
  /-- The very cause is found if nothing is skipped and no operator is lacking. -/
  found : Scalar.ordered D = true → e.conditionals = 0 → env.HandlerSucceeds →
    ∀ setting, (e.evaluate env setting).Reports (e.validate env)

variable {env : Environment K D σ} {e : Expr K}

/-- The evaluation of what passes the checks fails for the cause of the handler. -/
theorem Expr.handlerFailed_of_validate (hcompare : Scalar.ComparesOrdered D)
    (h : e.validate env = .ok ()) {setting : Setting D} {host host' : σ} {cause : ExpressionError}
    (hfails : (e.evaluate env setting).outcome host = (.error cause, host')) :
    HandlerFailed (e.events env setting host) cause := by
  have hresult := (outcome_watched env setting e host []).1
  rw [hfails] at hresult
  exact evaluate_failsByHandler hcompare h setting (host, []) cause _ (Prod.ext hresult rfl)

/-- What passes the checks of an environment without a handler leaves nothing to a host. -/
theorem Expr.valid_of_validate (h : e.validate env = .ok ()) (hnone : env.extension = none) :
    e.Valid env := by
  have hrefusal := validate_alone h
  rw [Environment.alone_eq_self hnone, h] at hrefusal
  have hextensions : e.extensions = [] := by
    cases hnodes : e.extensions with
    | nil => rfl
    | cons node rest =>
      rw [hnodes] at hrefusal
      cases hrefusal
  exact (validate_eq_ok_iff (extensions_eq_nil_iff.mp hextensions)).mp h

/-- A call of the evaluator of the interpreter, where the expression has a value. -/
theorem Evaluator.interpreted_call {d : Evaluator D σ} (h : interpreted env e = .ok d)
    {setting : Setting D} {host host' : σ} {x : D}
    (hx : (e.evaluate env setting).outcome host = (.ok x, host')) :
    (d.call setting).run host = ((x, d), host') := by
  have hcompute := interpreted_compute h setting d.buffer host
  rw [hx] at hcompute
  exact run_bind_of_run hcompute

/-- In a domain whose ordered numbers can be compared, all evaluations are foreseen. -/
theorem foreseen (hcompare : Scalar.ComparesOrdered D) (env : Environment K D σ) (e : Expr K) :
    Foreseen env e where
  passed h setting host := by
    rcases hrun : (e.evaluate env setting).outcome host with ⟨cause | x, host'⟩
    · exact .inr ⟨cause, host', rfl, Expr.handlerFailed_of_validate hcompare h hrun⟩
    · exact .inl ⟨x, host', rfl⟩
  called h hnone := by
    obtain ⟨d, hd, -⟩ := map_eq_ok ((Evaluator.verdict_interpreted env e).trans h)
    refine ⟨d, hd, fun setting host => ?_⟩
    obtain ⟨x, host', hx⟩ := (Expr.valid_of_validate h hnone).exists_evaluate hcompare setting host
    exact ⟨x, host', hx, Evaluator.interpreted_call hd hx⟩
  refused setting host cause host' hfails hhandler := by
    cases h : e.validate env with
    | error found => exact ⟨found, rfl⟩
    | ok _ => exact absurd (Expr.handlerFailed_of_validate hcompare h hfails) hhandler
  found hordered he hhandler setting :=
    Expr.evaluate_reports hcompare hordered hhandler he setting

end Foreseen

/--
**The checks foresee every evaluation**, in the real and in the complex domain, and in any other in
which numbers that are ordered can be compared.
-/
theorem checks_foresee {K σ : Type} [RealFunctions K] (e : Expr K) :
    (∀ env : Environment K K σ, Foreseen env e) ∧
    (∀ env : Environment K (Complex K) σ, Foreseen env e) ∧
    ∀ (D : Type) [Scalar D K], Scalar.ComparesOrdered D →
      ∀ env : Environment K D σ, Foreseen env e :=
  ⟨fun env => foreseen Scalar.comparesOrdered_real env e,
    fun env => foreseen Scalar.comparesOrdered_complex env e,
    fun _ _ hcompare env => foreseen hcompare env e⟩

/-- A call of a function that is not there, behind one that is. -/
def Expr.lost : Expr Float := .binary .add (.call "next" [.var .sample]) (.call "absent" [])

/--
The missing function is found, also by an evaluation that has called the other one before. Where no
function is missing the evaluator keeps yielding values, and so does an evaluation that may ask the
handler, unless the handler fails.
-/
theorem checks_foresee_lost :
    (∃ found, Expr.lost.validate .metered = .error found) ∧
    (Expr.lost.conditionals = 0 ∧ ∀ setting, (Expr.lost.evaluate .metered setting).Reports
      (.error (.unknownFunction "absent"))) ∧
    (Expr.sample.validate .metered = .ok () ∧
      ∃ evaluator, Evaluator.interpreted .metered .sample = .ok evaluator ∧
        ∀ setting host, ∃ x host', (evaluator.call setting).run host = ((x, evaluator), host')) ∧
    ((Expr.ext "f" [.sample]).validate .hosted = .ok () ∧ ∀ setting host,
      (∃ x host', ((Expr.ext "f" [.sample]).evaluate .hosted setting).outcome host =
        (.ok x, host')) ∨
      ∃ cause, HandlerFailed ((Expr.ext "f" [.sample]).events .hosted setting host) cause) := by
  have hlost := (checks_foresee Expr.lost).1 .metered
  have hsample := (checks_foresee Expr.sample).1 .metered
  have hhosted := (checks_foresee (Expr.ext "f" [.sample])).1 .hosted
  refine ⟨?_, ⟨rfl, ?_⟩, ⟨rfl, ?_⟩, ⟨rfl, fun setting host => ?_⟩⟩
  · -- the last event is the call of the other function, not an extension node
    refine hlost.refused (fun _ => 0) 0 (.unknownFunction "absent") 1 rfl ?_
    rintro ⟨_, _, h⟩
    cases h
  · exact hlost.found rfl rfl nofun
  · obtain ⟨evaluator, hd, hcalls⟩ := hsample.called rfl rfl
    refine ⟨evaluator, hd, fun setting host => ?_⟩
    obtain ⟨x, host', -, hcall⟩ := hcalls setting host
    exact ⟨x, host', hcall⟩
  · refine (hhosted.passed rfl setting host).imp_right ?_
    rintro ⟨cause, _, -, h⟩
    exact ⟨cause, h⟩

end CircuitExpr
