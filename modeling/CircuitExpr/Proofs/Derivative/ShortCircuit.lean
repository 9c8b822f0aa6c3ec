import Mathlib
import CircuitExpr.Proofs.Derivative.Closed
import CircuitExpr.Proofs.Evaluation.Purity
import CircuitExpr.Proofs.Function.Library

/-!
# Derivatives keep short-circuiting

A conditional guards the value that it does not choose: functions in there are not called. The
derivative has copies of operands, conditions and whole arguments in new places, but each copy
stands where it is evaluated only if the original was. So with pure functions a function that an
evaluation does not call is not called by an evaluation of the derivative either.

Two notions carry the proof. An expression is `Quiet` if its evaluation succeeds without a call of
the function; all parts that are evaluated on the way are quiet then. It is `Silent` if its
evaluation does not call the function, whether it succeeds or not; this is what the rules of
differentiation keep.

## Main statements

* `Expr.StrictPart` — the parts that are evaluated whenever the whole is
* `Expr.Assembled` — what a rule may return without bringing in the function
* `Expr.derive_short_circuits` — a function that is not called by an expression is not called by
  its derivative
-/

namespace CircuitExpr

open CircuitExpr.Expr LibraryFunction

/-! ## Calls that are not made -/

section Avoids

variable {D σ α β : Type} {f : Native}

/-- None of the calls is one of the function. -/
def NoCall (f : Native) (calls : List (Call D)) : Prop := ∀ c ∈ calls, c.function ≠ f

theorem noCall_append {first second : List (Call D)} :
    NoCall f (first ++ second) ↔ NoCall f first ∧ NoCall f second := List.forall_mem_append

namespace Run

/-- However the computation ends, it does not call the function. -/
def Avoids (f : Native) (x : Run (σ × List (Call D)) α) : Prop :=
  ∀ host calls, NoCall f calls → NoCall f (x.outcome (host, calls)).2.2

theorem avoids_pure (a : α) : Avoids f (pure a : Run (σ × List (Call D)) α) := fun _ _ h => h

theorem avoids_ofExcept (x : Except ExpressionError α) :
    Avoids f (Run.ofExcept x : Run (σ × List (Call D)) α) := fun _ _ h => h

theorem Avoids.bind {x : Run (σ × List (Call D)) α} {k : α → Run (σ × List (Call D)) β}
    (hx : x.Avoids f) (hk : ∀ a, (k a).Avoids f) : (x >>= k).Avoids f := by
  intro host calls h
  have hfirst := hx host calls h
  rcases hrun : x.outcome (host, calls) with ⟨_ | a, host', calls'⟩
  · rw [outcome_bind_error hrun]
    rwa [hrun] at hfirst
  · rw [outcome_bind_ok hrun]
    rw [hrun] at hfirst
    exact hk a host' calls' hfirst

/-- Changing the value at the end makes no difference. -/
theorem avoids_map {x : Run (σ × List (Call D)) α} {g : α → β} :
    (x >>= fun a => pure (g a)).Avoids f ↔ x.Avoids f := by
  refine ⟨fun h host calls hcalls => ?_, fun h => h.bind fun a => avoids_pure _⟩
  have hall := h host calls hcalls
  rcases hrun : x.outcome (host, calls) with ⟨_ | a, host', calls'⟩
  · rwa [outcome_bind_error hrun] at hall
  · rwa [outcome_bind_ok hrun] at hall

end Run

end Avoids

/-- The name stands for the function. -/
def FunctionTable.StandsFor {K : Type} (t : FunctionTable K) (name : String) (f : Native) : Prop :=
  ∃ d, t.get? name = some d ∧ d.native = f

namespace Expr

variable {K D σ : Type} {p e : Expr K} {arguments : List (Expr K)} {allowed : String → Prop}

/-! ## What rules return -/

/-- The first expression is a part of the second that is evaluated whenever the second is. -/
inductive StrictPart : Expr K → Expr K → Prop where
  | refl (e : Expr K) : StrictPart e e
  | operand {op : UnaryOp} {p operand : Expr K} (h : StrictPart p operand) :
      StrictPart p (.unary op operand)
  | left {op : BinaryOp} {p left right : Expr K} (h : StrictPart p left) :
      StrictPart p (.binary op left right)
  | right {op : BinaryOp} {p left right : Expr K} (h : StrictPart p right) :
      StrictPart p (.binary op left right)
  | condition {p condition whenTrue whenFalse : Expr K} (h : StrictPart p condition) :
      StrictPart p (.cond condition whenTrue whenFalse)
  | argument {name : String} {p a : Expr K} {arguments : List (Expr K)} (ha : a ∈ arguments)
      (h : StrictPart p a) : StrictPart p (.call name arguments)
  | child {name : String} {p a : Expr K} {arguments : List (Expr K)} (ha : a ∈ arguments)
      (h : StrictPart p a) : StrictPart p (.ext name arguments)

theorem StrictPart.trans {a b c : Expr K} (h : StrictPart a b) (h' : StrictPart b c) :
    StrictPart a c := by
  induction h' with
  | refl => exact h
  | operand _ ih => exact .operand (ih h)
  | left _ ih => exact .left (ih h)
  | right _ ih => exact .right (ih h)
  | condition _ ih => exact .condition (ih h)
  | argument ha _ ih => exact .argument ha (ih h)
  | child ha _ ih => exact .child ha (ih h)

/--
Put together from arguments and strict parts of them, in any way, with calls of allowed names
only. What is called inside the arguments is left open.
-/
inductive Assembled (allowed : String → Prop) (arguments : List (Expr K)) : Expr K → Prop where
  | part {p a : Expr K} (ha : a ∈ arguments) (h : StrictPart p a) : Assembled allowed arguments p
  | const (value : K) : Assembled allowed arguments (.const value)
  | var (v : Variable) : Assembled allowed arguments (.var v)
  | unary (op : UnaryOp) {operand : Expr K} (h : Assembled allowed arguments operand) :
      Assembled allowed arguments (.unary op operand)
  | binary (op : BinaryOp) {left right : Expr K} (hleft : Assembled allowed arguments left)
      (hright : Assembled allowed arguments right) :
      Assembled allowed arguments (.binary op left right)
  | cond {condition whenTrue whenFalse : Expr K}
      (hcondition : Assembled allowed arguments condition)
      (htrue : Assembled allowed arguments whenTrue)
      (hfalse : Assembled allowed arguments whenFalse) :
      Assembled allowed arguments (.cond condition whenTrue whenFalse)
  | call {name : String} {es : List (Expr K)} (hname : allowed name)
      (h : ∀ e ∈ es, Assembled allowed arguments e) : Assembled allowed arguments (.call name es)
  | ext {name : String} {es : List (Expr K)} (h : ∀ e ∈ es, Assembled allowed arguments e) :
      Assembled allowed arguments (.ext name es)

/-- What the rules of the library put together is assembled if their functions are allowed. -/
theorem closed_assembled [Literal K] (h : ∀ g : LibraryFunction, allowed g.name)
    (arguments : List (Expr K)) : Closed (fun _ => True) (Assembled allowed arguments) where
  const := .const
  minus := by
    refine ⟨fun h => ?_, .unary .minus⟩
    cases h with
    | part ha hp => exact .part ha (StrictPart.trans (.operand (.refl _)) hp)
    | unary _ h => exact h
  binary _ ha hb := .binary _ ha hb
  cond := .cond
  call _ _ hes := .call (h _) hes
  own := ⟨trivial, trivial, trivial, trivial⟩

end Expr

namespace FunctionTable

variable {K : Type} {allowed : String → Prop}

/-- No rule of the table brings in a call of another name, except inside its arguments. -/
def BringsInOnly (t : FunctionTable K) (allowed : String → Prop) : Prop :=
  ∀ name arguments d rule, t.resolve name arguments.length = .ok d → d.rule = some rule →
    ∀ p ∈ rule arguments, p.Assembled allowed arguments

/-- **The rules of the library bring in functions of the library alone.** -/
theorem library_bringsInOnly [Literal K] (h : ∀ g : LibraryFunction, allowed g.name) :
    (library : FunctionTable K).BringsInOnly allowed := by
  intro name arguments d rule hd hrule
  obtain ⟨g, rfl, -⟩ := library_resolve_eq_ok hd
  obtain rfl := Option.some.inj hrule
  exact (closed_assembled h arguments).rule g fun a ha => .part ha (.refl a)

/-- Registering a function leaves it at that if its own rule does. -/
theorem BringsInOnly.register {t : FunctionTable K} (h : t.BringsInOnly allowed) {name : String}
    {d : FunctionDefinition K} (hd : ∀ rule, d.rule = some rule →
      ∀ arguments, ∀ p ∈ rule arguments, p.Assembled allowed arguments) :
    (t.register name d).BringsInOnly allowed := by
  intro other arguments d' rule hresolve hrule p hp
  obtain ⟨hfound, haccepts⟩ := resolve_eq_ok_iff.mp hresolve
  rw [get?_register] at hfound
  split at hfound
  · obtain rfl := Option.some.inj hfound
    exact hd rule hrule arguments p hp
  · exact h other arguments d' rule (resolve_eq_ok_iff.mpr ⟨hfound, haccepts⟩) hrule p hp

end FunctionTable

/-! ## Quiet and silent expressions -/

namespace Expr

open Run

variable {K D σ : Type} [Literal K] [Scalar D K] {env : Environment K D σ} {setting : Setting D}
  {f : Native} {e p : Expr K} {arguments es : List (Expr K)} {name : String}

/-- The evaluation succeeds and does not call the function, whatever the state of the host. -/
def Quiet (env : Environment K D σ) (setting : Setting D) (f : Native) (e : Expr K) : Prop :=
  ∃ x calls, (evaluate env.recorded setting e).Traces (.ok x) calls ∧ NoCall f calls

/-- The evaluation does not call the function, whether it succeeds or not. -/
def Silent (env : Environment K D σ) (setting : Setting D) (f : Native) (e : Expr K) : Prop :=
  (evaluate env.recorded setting e).Avoids f

theorem Quiet.silent (h : e.Quiet env setting f) : e.Silent env setting f := by
  obtain ⟨x, new, htrace, hnew⟩ := h
  intro host calls hcalls
  rw [htrace]
  exact noCall_append.mpr ⟨hcalls, hnew⟩

/-! ### Parts of a quiet expression -/

section Parts

variable [Nonempty σ]

theorem quiet_unary {op : UnaryOp} (hpure : env.PureFor (.unary op e))
    (h : (unary op e).Quiet env setting f) : e.Quiet env setting f := by
  obtain ⟨y, calls, htrace, hcalls⟩ := h
  rw [evaluate] at htrace
  obtain ⟨x, first, second, rfl, hx, -⟩ := htrace.of_bind (evaluate_stateless hpure.unary setting)
    fun x => ⟨_, _, traces_pure _⟩
  exact ⟨x, first, hx, (noCall_append.mp hcalls).1⟩

theorem quiet_binary {op : BinaryOp} {left right : Expr K}
    (hpure : env.PureFor (.binary op left right))
    (h : (binary op left right).Quiet env setting f) :
    left.Quiet env setting f ∧ right.Quiet env setting f := by
  obtain ⟨z, calls, htrace, hcalls⟩ := h
  obtain ⟨hl, hr⟩ := hpure.binary
  rw [evaluate] at htrace
  have hright (x : D) : Stateless (evaluate env.recorded setting right >>= fun y =>
      Run.ofExcept (op.apply env.recorded.tolerances x y)) :=
    (evaluate_stateless hr setting).bind fun y => ⟨_, _, traces_ofExcept _⟩
  obtain ⟨x, first, rest, rfl, hx, hrest⟩ :=
    htrace.of_bind (evaluate_stateless hl setting) hright
  obtain ⟨y, second, third, rfl, hy, -⟩ := hrest.of_bind (evaluate_stateless hr setting)
    fun y => ⟨_, _, traces_ofExcept _⟩
  rw [noCall_append, noCall_append] at hcalls
  exact ⟨⟨x, first, hx, hcalls.1⟩, ⟨y, second, hy, hcalls.2.1⟩⟩

/-- Of a quiet conditional the condition and the chosen value are quiet. -/
theorem quiet_cond {condition whenTrue whenFalse : Expr K}
    (hpure : env.PureFor (.cond condition whenTrue whenFalse))
    (h : (cond condition whenTrue whenFalse).Quiet env setting f) :
    condition.Quiet env setting f ∧ ∃ x calls,
      (evaluate env.recorded setting condition).Traces (.ok x) calls ∧
      (if Scalar.isTrue x then whenTrue else whenFalse).Quiet env setting f := by
  obtain ⟨z, calls, htrace, hcalls⟩ := h
  obtain ⟨hc, ht, hf⟩ := hpure.cond
  rw [evaluate] at htrace
  have hchosen (x : D) : Stateless (if Scalar.isTrue x then evaluate env.recorded setting whenTrue
      else evaluate env.recorded setting whenFalse) := by
    split
    · exact evaluate_stateless ht setting
    · exact evaluate_stateless hf setting
  obtain ⟨x, first, second, rfl, hx, hvalue⟩ :=
    htrace.of_bind (evaluate_stateless hc setting) hchosen
  rw [noCall_append] at hcalls
  refine ⟨⟨x, first, hx, hcalls.1⟩, x, first, hx, z, second, ?_, hcalls.2⟩
  split at hvalue
  · next htrue => rwa [if_pos htrue]
  · next hfalse => rwa [if_neg hfalse]

theorem quiet_each (hpure : ∀ e ∈ es, env.PureFor e) {values : List D} {calls : List (Call D)}
    (h : (evaluateEach env.recorded setting es).Traces (.ok values) calls)
    (hcalls : NoCall f calls) : ∀ e ∈ es, e.Quiet env setting f := by
  induction es generalizing values calls with
  | nil => exact List.forall_mem_nil _
  | cons e rest ih =>
    rw [evaluateEach] at h
    obtain ⟨he, hpure⟩ := List.forall_mem_cons.mp hpure
    have hstateless := evaluateEach_stateless fun a ha => evaluate_stateless (hpure a ha) setting
    obtain ⟨x, first, second, rfl, hx, hrest⟩ := h.of_bind (evaluate_stateless he setting)
      fun x => hstateless.bind fun xs => ⟨_, _, traces_pure _⟩
    obtain ⟨xs, third, fourth, rfl, hxs, -⟩ := hrest.of_bind hstateless
      fun xs => ⟨_, _, traces_pure _⟩
    rw [noCall_append, noCall_append] at hcalls
    exact List.forall_mem_cons.mpr ⟨⟨x, first, hx, hcalls.1⟩, ih hpure hxs hcalls.2.1⟩

theorem quiet_call (hpure : env.PureFor (.call name arguments))
    (h : (call name arguments).Quiet env setting f) : ∀ a ∈ arguments, a.Quiet env setting f := by
  obtain ⟨z, calls, htrace, hcalls⟩ := h
  have hstateless := evaluateEach_stateless fun a ha =>
    evaluate_stateless (hpure.call ha) setting
  cases hd : env.recorded.functions.resolve name arguments.length with
  | error e =>
    rw [evaluate_call_of_error hd] at htrace
    obtain ⟨host⟩ := ‹Nonempty σ›
    cases (htrace host []).symm.trans (traces_ofExcept _ host [])
  | ok d =>
    rw [evaluate_call_of_ok hd] at htrace
    obtain ⟨values, first, second, rfl, hvalues, -⟩ := htrace.of_bind hstateless fun values =>
      let ⟨x, hx⟩ := traces_native hpure.functions hd values
      ⟨_, _, hx⟩
    exact quiet_each (fun a => hpure.call) hvalues (noCall_append.mp hcalls).1

theorem quiet_ext (hpure : env.PureFor (.ext name arguments))
    (h : (ext name arguments).Quiet env setting f) : ∀ a ∈ arguments, a.Quiet env setting f := by
  obtain ⟨z, calls, htrace, hcalls⟩ := h
  have hstateless := evaluateEach_stateless fun a (_ : a ∈ arguments) =>
    evaluate_stateless hpure.ext setting
  rw [evaluate, Environment.recorded_extension] at htrace
  cases hhandler : env.extension with
  | none =>
    rw [hhandler] at htrace
    obtain ⟨host⟩ := ‹Nonempty σ›
    cases (htrace host []).symm.trans (traces_ofExcept _ host [])
  | some handler =>
    rw [hhandler] at htrace
    obtain ⟨values, first, second, rfl, hvalues, -⟩ :=
      htrace.of_bind hstateless (extension_stateless hpure.handler hhandler name)
    exact quiet_each (fun a _ => hpure.ext) hvalues (noCall_append.mp hcalls).1

/-- **What is evaluated on the way is quiet as well.** -/
theorem Quiet.of_strictPart (hpure : env.PureFor e) (h : StrictPart p e)
    (he : e.Quiet env setting f) : p.Quiet env setting f := by
  induction h with
  | refl => exact he
  | operand _ ih => exact ih hpure.unary (quiet_unary hpure he)
  | left _ ih => exact ih hpure.binary.1 (quiet_binary hpure he).1
  | right _ ih => exact ih hpure.binary.2 (quiet_binary hpure he).2
  | condition _ ih => exact ih hpure.cond.1 (quiet_cond hpure he).1
  | argument ha _ ih => exact ih (hpure.call ha) (quiet_call hpure he _ ha)
  | child ha _ ih => exact ih hpure.ext (quiet_ext hpure he _ ha)

end Parts

/-! ### Silent expressions are put together -/

theorem silent_const (value : K) : (const value).Silent env setting f := by
  unfold Silent
  rw [evaluate]
  exact avoids_pure _

theorem silent_var (v : Variable) : (var v).Silent env setting f := by
  unfold Silent
  rw [evaluate]
  split
  · exact avoids_pure _
  · exact avoids_ofExcept _

theorem silent_unary {op : UnaryOp} :
    (unary op e).Silent env setting f ↔ e.Silent env setting f := by
  unfold Silent
  rw [evaluate]
  exact avoids_map

theorem Silent.binary {op : BinaryOp} {left right : Expr K} (hleft : left.Silent env setting f)
    (hright : right.Silent env setting f) : (binary op left right).Silent env setting f := by
  unfold Silent
  rw [evaluate]
  exact hleft.bind fun x => hright.bind fun y => avoids_ofExcept _

theorem Silent.cond {condition whenTrue whenFalse : Expr K}
    (hcondition : condition.Silent env setting f) (htrue : whenTrue.Silent env setting f)
    (hfalse : whenFalse.Silent env setting f) :
    (cond condition whenTrue whenFalse).Silent env setting f := by
  unfold Silent
  rw [evaluate]
  refine hcondition.bind fun x => ?_
  split
  · exact htrue
  · exact hfalse

/-- **The value that is not chosen does not matter.** -/
theorem silent_cond_of_traces {condition whenTrue whenFalse : Expr K} {x : D}
    {calls : List (Call D)} (hcondition : condition.Quiet env setting f)
    (hx : (evaluate env.recorded setting condition).Traces (.ok x) calls)
    (hchosen : (if Scalar.isTrue x then whenTrue else whenFalse).Silent env setting f) :
    (Expr.cond condition whenTrue whenFalse).Silent env setting f := by
  intro host before hbefore
  have hafter := hcondition.silent host before hbefore
  rw [hx] at hafter
  rw [evaluate, outcome_bind_ok (hx host before)]
  split at hchosen
  · next htrue =>
    rw [if_pos htrue]
    exact hchosen host _ hafter
  · next hfalse =>
    rw [if_neg hfalse]
    exact hchosen host _ hafter

/-- The slopes of a conditional are chosen as its values are. -/
theorem Quiet.conditionalSlope {condition dt df : Expr K} {x : D} {calls : List (Call D)}
    (hcondition : condition.Quiet env setting f)
    (hx : (evaluate env.recorded setting condition).Traces (.ok x) calls)
    (hchosen : (if Scalar.isTrue x then dt else df).Silent env setting f) :
    (Expr.conditionalSlope condition dt df).Silent env setting f := by
  obtain ⟨y, _, rfl, -, -, heq⟩ | heq := conditionalSlope_cases condition dt df <;> rw [heq]
  · exact silent_const y
  · exact silent_cond_of_traces hcondition hx hchosen

theorem silentEach (h : ∀ e ∈ es, e.Silent env setting f) :
    (evaluateEach env.recorded setting es).Avoids f := by
  induction es with
  | nil =>
    rw [evaluateEach]
    exact avoids_pure _
  | cons e rest ih =>
    rw [evaluateEach]
    obtain ⟨he, hrest⟩ := List.forall_mem_cons.mp h
    exact he.bind fun x => (ih hrest).bind fun xs => avoids_pure _

/-- A call of another function is silent if its arguments are. -/
theorem silent_call (hname : ¬ env.functions.StandsFor name f)
    (h : ∀ a ∈ arguments, a.Silent env setting f) :
    (call name arguments).Silent env setting f := by
  unfold Silent
  cases hd : env.recorded.functions.resolve name arguments.length with
  | error e =>
    rw [evaluate_call_of_error hd]
    exact avoids_ofExcept _
  | ok d =>
    rw [evaluate_call_of_ok hd]
    refine (silentEach h).bind fun values host calls hcalls => ?_
    have hother : d.native ≠ f := fun hf =>
      hname ⟨d, (FunctionTable.resolve_eq_ok_iff.mp hd).1, hf⟩
    exact noCall_append.mpr ⟨hcalls, List.forall_mem_singleton.mpr hother⟩

theorem silent_ext (h : ∀ a ∈ arguments, a.Silent env setting f) :
    (ext name arguments).Silent env setting f := by
  unfold Silent
  rw [evaluate, Environment.recorded_extension]
  cases env.extension with
  | none => exact avoids_ofExcept _
  | some handler => exact (silentEach h).bind fun values host calls hcalls => hcalls

/-- **The rules of operators keep silence** if the functions they call are others. -/
theorem closed_silent (hown : ∀ g ∈ [.sgn, .abs, .floor, .log],
      ¬ env.functions.StandsFor (LibraryFunction.name g) f) :
    Closed (fun g => ¬ env.functions.StandsFor g.name f)
      (Silent env setting f : Expr K → Prop) where
  const := silent_const
  minus := silent_unary
  binary _ ha hb := ha.binary hb
  cond hc ha hb := hc.cond ha hb
  call hg _ hes := silent_call hg hes
  own := ⟨hown _ (by simp), hown _ (by simp), hown _ (by simp), hown _ (by simp)⟩

/-- What a rule returns is silent if the arguments of the call are quiet. -/
theorem Assembled.silent [Nonempty σ] (hpure : ∀ a ∈ arguments, env.PureFor a)
    (harguments : ∀ a ∈ arguments, a.Quiet env setting f)
    (h : p.Assembled (fun name => ¬ env.functions.StandsFor name f) arguments) :
    p.Silent env setting f := by
  induction h with
  | part ha hp => exact ((harguments _ ha).of_strictPart (hpure _ ha) hp).silent
  | const value => exact silent_const value
  | var v => exact silent_var v
  | unary op _ ih => exact silent_unary.mpr ih
  | binary op _ _ ihl ihr => exact ihl.binary ihr
  | cond _ _ _ ihc iht ihf => exact ihc.cond iht ihf
  | call hname _ ih => exact silent_call hname ih
  | ext _ ih => exact silent_ext ih

/-! ## Derivatives -/

section Derivatives

variable {t : FunctionTable K} {comparison : NameComparison} {v : Variable}

theorem deriveEach_mem {slopes : List (Expr K)}
    (h : deriveEach t comparison v es = .ok slopes) :
    ∀ s ∈ slopes, ∃ e ∈ es, derive t comparison v e = .ok s := by
  induction es generalizing slopes with
  | nil =>
    rw [deriveEach_nil] at h
    obtain rfl := Except.ok.inj h
    exact List.forall_mem_nil _
  | cons e rest ih =>
    rw [deriveEach_cons, bind_eq_ok] at h
    obtain ⟨d, hd, h⟩ := h
    obtain ⟨ds, hds, h⟩ := bind_eq_ok.mp h
    obtain rfl := Except.ok.inj h
    refine List.forall_mem_cons.mpr ⟨⟨e, by simp, hd⟩, fun s hs => ?_⟩
    obtain ⟨a, ha, has⟩ := ih hds s hs
    exact ⟨a, by simp [ha], has⟩

/-- **The derivative of a quiet expression is silent**, rule by rule. -/
theorem Quiet.derive [Nonempty σ] (hpure : env.PureFor e)
    (hrules : t.BringsInOnly fun name => ¬ env.functions.StandsFor name f)
    (hown : ∀ g ∈ [.sgn, .abs, .floor, .log], ¬ env.functions.StandsFor (LibraryFunction.name g) f)
    {d : Expr K} (hd : derive t comparison v e = .ok d) (h : e.Quiet env setting f) :
    d.Silent env setting f := by
  have hS : Closed _ (Silent env setting f : Expr K → Prop) := closed_silent hown
  induction e using Expr.induction generalizing d with
  | const value =>
    rw [derive_const] at hd
    obtain rfl := Except.ok.inj hd
    exact hS.zero
  | var w =>
    rw [derive_var] at hd
    obtain rfl := Except.ok.inj hd
    split
    · exact hS.one
    · exact hS.zero
  | unary op operand ih =>
    have hoperand := quiet_unary hpure h
    cases op with
    | plus =>
      rw [derive_plus] at hd
      exact ih hpure.unary hd hoperand
    | minus =>
      obtain ⟨s, hs, rfl⟩ := derive_minus_eq_ok hd
      exact hS.negate (ih hpure.unary hs hoperand)
    | not =>
      rw [derive_not] at hd
      obtain rfl := Except.ok.inj hd
      exact hS.zero
  | binary op left right ihl ihr =>
    obtain ⟨hleft, hright⟩ := quiet_binary hpure h
    obtain ⟨-, rfl⟩ | ⟨-, da, db, hda, hdb, rfl⟩ := derive_binary_eq_ok hd
    · exact hS.zero
    · exact hS.binarySlope op hleft.silent hright.silent (ihl hpure.binary.1 hda hleft)
        (ihr hpure.binary.2 hdb hright)
  | cond condition whenTrue whenFalse _ iht ihf =>
    -- only the chosen value is quiet, so only its slope is known to be silent
    obtain ⟨hcondition, x, calls, hx, hchosen⟩ := quiet_cond hpure h
    obtain ⟨dt, df, hdt, hdf, rfl⟩ := derive_cond_eq_ok hd
    refine hcondition.conditionalSlope hx ?_
    split at hchosen
    · next htrue =>
      rw [if_pos htrue]
      exact iht hpure.cond.2.1 hdt hchosen
    · next hfalse =>
      rw [if_neg hfalse]
      exact ihf hpure.cond.2.2 hdf hchosen
  | call name arguments ih =>
    have harguments := quiet_call hpure h
    obtain ⟨-, rfl⟩ | ⟨-, definition, rule, slopes, hdefinition, hrule, -, hslopes, rfl⟩ :=
      derive_call_eq_ok hd
    · exact hS.zero
    · refine hS.chain (fun p hp => ?_) fun s hs => ?_
      -- the arguments were evaluated for the call, and so were their strict parts
      · exact (hrules name arguments definition rule hdefinition hrule p hp).silent
          (fun a => hpure.call) harguments
      · obtain ⟨a, ha, hs⟩ := deriveEach_mem hslopes s hs
        exact ih a ha (hpure.call ha) hs (harguments a ha)
  | ext name arguments ih =>
    obtain ⟨-, rfl⟩ := derive_ext_eq_ok hd
    exact hS.zero

/--
**Derivatives keep short-circuiting.** Functions are pure, the handler of extension nodes as well
if there are any, and the sources are fixed. If the evaluation of an expression succeeds without a
call of some function, then evaluating a derivative of it does not call the function either. This
excepts functions that a rule brings in by itself, among them the four that the rules of operators
call.
-/
theorem derive_short_circuits (hpure : env.PureFor e)
    (hrules : t.BringsInOnly fun name => ¬ env.functions.StandsFor name f)
    (hown : ∀ g ∈ [.sgn, .abs, .floor, .log], ¬ env.functions.StandsFor (LibraryFunction.name g) f)
    {host host' : σ} {value : D} {calls : List (Call D)}
    (he : (evaluate env.recorded setting e).outcome (host, []) = (.ok value, (host', calls)))
    (hcalls : NoCall f calls) {d : Expr K} (hd : Expr.derive t comparison v e = .ok d)
    (other : σ) : NoCall f ((evaluate env.recorded setting d).outcome (other, [])).2.2 := by
  have : Nonempty σ := ⟨host⟩
  obtain ⟨r, new, htrace⟩ := evaluate_stateless hpure setting
  obtain ⟨rfl, -, rfl⟩ : .ok value = r ∧ host' = host ∧ calls = new := by
    simpa using he.symm.trans (htrace host [])
  have hquiet : e.Quiet env setting f := ⟨value, calls, htrace, hcalls⟩
  exact hquiet.derive hpure hrules hown hd other [] (List.forall_mem_nil _)

end Derivatives

end Expr

/-! ## A guarded function -/

/-- The library and a pure function `f` of the host with a rule of its own. -/
def Environment.guarded : Environment Float Float Unit where
  bindings := (Bindings.empty .caseSensitive).bind .sample 0
  functions := FunctionTable.library.register "f"
    ⟨.exactly 1, .host 0, some (List.map fun x => .call "cos" [x])⟩
  tolerances := .default
  natives := Native.call fun _ _ => pure 7
  extension := none

theorem Environment.guarded_pure (e : Expr Float) : Environment.guarded.PureFor e where
  functions name d _ values := by
    cases hnative : d.native with
    | library g => exact ⟨g.apply values, fun _ => rfl⟩
    | host id => exact ⟨7, fun _ => rfl⟩
  extension := .inr nofun

/-- Conditionals in a product, with calls of `f` in the values that are not chosen. -/
def Expr.guarded : Expr Float :=
  .binary .mul (.var .sample) (.cond (.var .sample)
    (.cond (.const 0) (.call "f" [.var .sample]) (.call "exp" [.var .sample]))
    (.call "f" [.const 1]))

theorem Environment.guarded_library (g : LibraryFunction) :
    ¬ Environment.guarded.functions.StandsFor g.name (.host 0) := by
  rintro ⟨d, hd, hnative⟩
  rw [Environment.guarded, FunctionTable.get?_register] at hd
  split at hd
  · next hname => cases g <;> revert hname <;> decide +kernel
  · obtain ⟨g', rfl⟩ := FunctionTable.library_get?_eq_some hd
    exact nomatch hnative

/-- Only `exp` is called, and the derivative does not reach `f` either. -/
theorem Expr.derive_short_circuits_guarded :
    (Expr.guarded.evaluate Environment.guarded.recorded fun _ => 1).outcome ((), []) =
        (.ok (1 * Float.exp 1), ((), [⟨.library .exp, [1]⟩])) ∧
      ∃ d, Expr.guarded.derive Environment.guarded.functions .caseSensitive .sample = .ok d ∧
        ∀ other, NoCall (.host 0)
          ((d.evaluate Environment.guarded.recorded fun _ => 1).outcome (other, [])).2.2 := by
  have hvalue : (Expr.guarded.evaluate Environment.guarded.recorded fun _ => 1).outcome ((), []) =
      (.ok (1 * Float.exp 1), ((), [⟨.library .exp, [1]⟩])) := rfl
  have hrules : Environment.guarded.functions.BringsInOnly
      fun name => ¬ Environment.guarded.functions.StandsFor name (.host 0) := by
    refine (FunctionTable.library_bringsInOnly Environment.guarded_library).register ?_
    rintro _ ⟨⟩ arguments
    exact List.forall_mem_map.mpr fun x hx => .call (Environment.guarded_library .cos)
      (List.forall_mem_singleton.mpr (.part hx (.refl x)))
  have hcalls : NoCall (.host 0) [(⟨.library .exp, [1]⟩ : Call Float)] :=
    List.forall_mem_singleton.mpr nofun
  obtain ⟨d, hd⟩ : ∃ d, Expr.guarded.derive Environment.guarded.functions .caseSensitive .sample =
      .ok d := ⟨_, rfl⟩
  exact ⟨hvalue, d, hd, derive_short_circuits (Environment.guarded_pure _) hrules
    (fun g _ => Environment.guarded_library g) hvalue hcalls hd⟩

end CircuitExpr
