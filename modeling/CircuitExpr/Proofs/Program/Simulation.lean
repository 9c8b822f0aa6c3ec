import Mathlib
import CircuitExpr.Proofs.Evaluation.Recording
import CircuitExpr.Proofs.Program.Heights

/-!
# Programs compute what evaluation computes

The code of an expression, wherever it stands and whatever is below it on the stack, puts the
value of the expression on the stack and leaves the host as evaluation leaves it. The same holds
of an environment that notes down its calls, so the functions called are the same too, with the
same arguments and in the same order.

## Main statements

* `Placed.computes` — an execution through the code of an expression
* `run_simulates_evaluate` — a run of what several expressions are assembled to
-/

namespace CircuitExpr

/-- In an ordered domain every ordering can be asked for. -/
def Scalar.ComparesOrdered (D : Type) {K : Type} [Scalar D K] : Prop :=
  Scalar.ordered D = true → ∀ (op : BinaryOp) (x y : D), op.isOrdering = true →
    ∃ flag, Scalar.compare op x y = .ok flag

section Apply

variable {K D : Type} [Literal K] [Scalar D K]

/-- An operator that the domain does not lack has a value. -/
theorem BinaryOp.exists_apply_eq_ok (hcompare : Scalar.ComparesOrdered D) {op : BinaryOp}
    (hop : Expr.lacks D op = false) (tolerances : Tolerances K) (x y : D) :
    ∃ value, op.apply tolerances x y = .ok value := by
  cases hordering : op.isOrdering with
  | false => cases op <;> first | exact ⟨_, rfl⟩ | simp [isOrdering] at hordering
  | true =>
    have hordered : Scalar.ordered D = true := by simpa [Expr.lacks, hordering] using hop
    obtain ⟨flag, hflag⟩ := hcompare hordered op x y hordering
    refine ⟨Scalar.ofBool flag, ?_⟩
    cases op <;> simp [isOrdering] at hordering <;> simp [apply, hflag, Except.map]

end Apply

theorem Scalar.comparesOrdered_real {K : Type} [RealFunctions K] :
    Scalar.ComparesOrdered (K := K) K := by
  intro _ op x y hop
  cases op <;> first | exact ⟨_, rfl⟩ | simp [BinaryOp.isOrdering] at hop

theorem Scalar.comparesOrdered_complex {K : Type} [RealFunctions K] :
    Scalar.ComparesOrdered (K := K) (Complex K) :=
  fun h => nomatch h

namespace Expr

open Program Run

variable {K D σ : Type} [Literal K] [Scalar D K] {env : Environment K D σ} {a : Assembly D}
  {setting : Setting D}

/-! ## Execution of the code of an expression -/

/-- The code between two places computes the value of an expression, whatever is below. -/
def Computes (env : Environment K D σ) (a : Assembly D) (setting : Setting D) (e : Expr K)
    (start stop : Nat) : Prop :=
  ∀ stack host, ∃ value host', (evaluate env setting e).outcome host = (.ok value, host') ∧
    Reaches (ofAssembly env a) setting ⟨start, stack, host⟩ ⟨stop, value :: stack, host'⟩

/-- The code between two places computes the values of several expressions, the last on top. -/
def ComputesEach (env : Environment K D σ) (a : Assembly D) (setting : Setting D)
    (es : List (Expr K)) (start stop : Nat) : Prop :=
  ∀ stack host, ∃ values host',
    (evaluateEach env setting es).outcome host = (.ok values, host') ∧
      values.length = es.length ∧
      Reaches (ofAssembly env a) setting ⟨start, stack, host⟩
        ⟨stop, values.reverse ++ stack, host'⟩

theorem PlacedEach.computes {es : List (Expr K)}
    (h : ∀ e ∈ es, ∀ {start depth stop}, Placed env a e start depth stop →
      Computes env a setting e start stop) :
    ∀ {start depth stop}, PlacedEach env a es start depth stop →
      ComputesEach env a setting es start stop := by
  induction es with
  | nil =>
    rintro start depth stop rfl stack host
    exact ⟨[], host, by rw [evaluateEach, outcome_pure], rfl, .refl _⟩
  | cons e rest ih =>
    rintro start depth stop ⟨mid, hfirst, hrest⟩ stack host
    obtain ⟨value, host₁, hvalue, hreach₁⟩ := h e (by simp) hfirst stack host
    obtain ⟨values, host₂, hvalues, hlength, hreach₂⟩ :=
      ih (fun x hx => h x (by simp [hx])) hrest (value :: stack) host₁
    refine ⟨value :: values, host₂, ?_, by simp [hlength], ?_⟩
    · rw [evaluateEach, outcome_bind_ok hvalue, outcome_bind_ok hvalues, outcome_pure]
    · rw [List.reverse_cons, List.append_assoc]
      exact hreach₁.trans hreach₂

/-- A unary operator that takes an instruction, given the code of its operand. -/
theorem Computes.unary {op : UnaryOp} {operand : Expr K} {start mid height : Nat}
    {i : Instruction D} (h : Computes env a setting operand start mid) (hi : a.Has mid height i)
    (hstep : ∀ value stack host, (ofAssembly env a).after setting i ⟨mid, value :: stack, host⟩ =
      ⟨mid + 1, op.apply value :: stack, host⟩) :
    Computes env a setting (.unary op operand) start (mid + 1) := by
  intro stack host
  obtain ⟨value, host', hvalue, hreach⟩ := h stack host
  refine ⟨op.apply value, host', ?_, hreach.trans (.step hi.code_eq (hstep _ _ _))⟩
  rw [evaluate, outcome_bind_ok hvalue, outcome_pure]

theorem Computes.binary (hcompare : Scalar.ComparesOrdered D) {op : BinaryOp} {left right : Expr K}
    {start mid last height : Nat} (hlacks : lacks D op = false)
    (hleft : Computes env a setting left start mid)
    (hright : Computes env a setting right mid last) (hi : a.Has last height (.apply op)) :
    Computes env a setting (.binary op left right) start (last + 1) := by
  intro stack host
  obtain ⟨x, host₁, hx, hreach₁⟩ := hleft stack host
  obtain ⟨y, host₂, hy, hreach₂⟩ := hright (x :: stack) host₁
  obtain ⟨value, hvalue⟩ := BinaryOp.exists_apply_eq_ok hcompare hlacks env.tolerances x y
  refine ⟨value, host₂, ?_, (hreach₁.trans hreach₂).trans (.step hi.code_eq ?_)⟩
  · rw [evaluate, outcome_bind_ok hx, outcome_bind_ok hy, outcome_ofExcept, hvalue]
  · simp [applyTop, pop, ofAssembly, hvalue]

/-- Only the code of the value that is chosen is executed. -/
theorem Computes.cond {condition whenTrue whenFalse : Expr K}
    {start branch exit stop height height' : Nat}
    (hcondition : Computes env a setting condition start branch)
    (hbranch : a.Has branch height (.jumpIfFalse (exit + 1)))
    (htrue : Computes env a setting whenTrue (branch + 1) exit)
    (hexit : a.Has exit height' (.jump stop))
    (hfalse : Computes env a setting whenFalse (exit + 1) stop) :
    Computes env a setting (.cond condition whenTrue whenFalse) start stop := by
  intro stack host
  obtain ⟨x, host₁, hx, hreach⟩ := hcondition stack host
  cases hholds : (Scalar.isTrue x : Bool) with
  | true =>
    obtain ⟨value, host₂, hvalue, hchosen⟩ := htrue stack host₁
    have hjump : Reaches (ofAssembly env a) setting ⟨branch, x :: stack, host₁⟩
        ⟨branch + 1, stack, host₁⟩ := .step hbranch.code_eq (by simp [pop, hholds])
    refine ⟨value, host₂, ?_, (hreach.trans hjump).trans (hchosen.trans (.step hexit.code_eq ?_))⟩
    · rw [evaluate, outcome_bind_ok hx, if_pos hholds, hvalue]
    · exact after_jump _ _ _ _ _ _
  | false =>
    obtain ⟨value, host₂, hvalue, hchosen⟩ := hfalse stack host₁
    have hjump : Reaches (ofAssembly env a) setting ⟨branch, x :: stack, host₁⟩
        ⟨exit + 1, stack, host₁⟩ := .step hbranch.code_eq (by simp [pop, hholds])
    refine ⟨value, host₂, ?_, (hreach.trans hjump).trans hchosen⟩
    rw [evaluate, outcome_bind_ok hx, if_neg (by simp [hholds]), hvalue]

theorem Computes.call {name : String} {arguments : List (Expr K)} {d : FunctionDefinition K}
    {start last slot height : Nat} (hd : env.functions.resolve name arguments.length = .ok d)
    (hslot : a.captures.functions[slot]? = some d.native)
    (harguments : ComputesEach env a setting arguments start last)
    (hi : a.Has last height (.call slot arguments.length)) :
    Computes env a setting (.call name arguments) start (last + 1) := by
  intro stack host
  obtain ⟨values, host₁, hvalues, hlength, hreach⟩ := harguments stack host
  refine ⟨((env.natives d.native values).run host₁).1, ((env.natives d.native values).run host₁).2,
    ?_, hreach.trans (.step hi.code_eq ?_)⟩
  · rw [evaluate_call_of_ok hd, outcome_bind_ok hvalues, outcome_ofCall]
  · -- as many numbers are taken as there are arguments, the last one from the top
    rw [after_call, callTop_run hslot, ← hlength]
    simp [ofAssembly]

/-- **The code of an expression computes its value**, in the states of the host of evaluation. -/
theorem Placed.computes (hcompare : Scalar.ComparesOrdered D) {e : Expr K} :
    ∀ {start depth stop}, Placed env a e start depth stop →
      Computes env a setting e start stop := by
  induction e using Expr.induction with
  | const value =>
    rintro start depth stop ⟨hhas, rfl⟩ stack host
    exact ⟨Scalar.ofReal value, host, by rw [evaluate, outcome_pure], .step hhas.code_eq rfl⟩
  | var v =>
    rintro start depth stop ⟨source, slot, hget, hslot, hhas, rfl⟩ stack host
    refine ⟨setting source, host, by simp only [evaluate, hget, outcome_pure],
      .step hhas.code_eq ?_⟩
    simp [ofAssembly, hslot]
  | unary op operand ih =>
    intro start depth stop h
    cases op with
    | plus =>
      -- there is no instruction for this operator
      intro stack host
      obtain ⟨value, host', hvalue, hreach⟩ := ih h stack host
      refine ⟨value, host', ?_, hreach⟩
      rw [evaluate, outcome_bind_ok hvalue, outcome_pure]
      rfl
    | minus | not =>
      obtain ⟨mid, hoperand, hhas, rfl⟩ := h
      exact (ih hoperand).unary hhas fun _ _ _ => rfl
  | binary op left right ihl ihr =>
    rintro start depth stop ⟨hlacks, mid, last, hleft, hright, hhas, rfl⟩
    exact .binary hcompare hlacks (ihl hleft) (ihr hright) hhas
  | cond condition whenTrue whenFalse ihc iht ihf =>
    rintro start depth stop ⟨branch, exit, hcondition, hbranch, htrue, hexit, hfalse⟩
    exact .cond (ihc hcondition) hbranch (iht htrue) hexit (ihf hfalse)
  | call name arguments ih =>
    rintro start depth stop ⟨d, slot, last, hd, hslot, harguments, hhas, rfl⟩
    exact .call hd hslot (harguments.computes ih) hhas
  | ext name arguments => exact fun h => h.elim

/-! ## Runs of assembled code -/

/-- Noting down calls is no matter of assembling. -/
theorem emitEach_recorded_of {es : List (Expr K)}
    (h : ∀ e ∈ es, ∀ a : Assembly D, emit env.recorded e a = emit env e a) (a : Assembly D) :
    emitEach env.recorded es a = emitEach env es a := by
  induction es generalizing a with
  | nil => simp only [emitEach]
  | cons e rest ih =>
    have hrest : emitEach env.recorded rest = emitEach env rest :=
      funext fun b => ih (fun x hx => h x (by simp [hx])) b
    simp only [emitEach, h e (by simp) a, hrest]

theorem emit_recorded (e : Expr K) (a : Assembly D) : emit env.recorded e a = emit env e a := by
  induction e using Expr.induction generalizing a with
  | const | var | ext => simp only [emit, Environment.recorded]
  | unary op operand ih => simp only [emit, ih]
  | binary op left right ihl ihr => simp only [emit, ihl, ihr]
  | cond condition whenTrue whenFalse ihc iht ihf => simp only [emit, ihc, iht, ihf]
  | call name arguments ih =>
    have harguments : emitEach env.recorded arguments = emitEach env arguments :=
      funext (emitEach_recorded_of ih)
    simp only [emit, harguments]
    rfl

theorem emitEach_recorded (es : List (Expr K)) (a : Assembly D) :
    emitEach env.recorded es a = emitEach env es a :=
  emitEach_recorded_of (fun e _ => emit_recorded e) a

end Expr

namespace Program

open Run

variable {K D σ : Type} [Literal K] [Scalar D K] {env : Environment K D σ} {a : Assembly D}

/-- The program whose functions note down that they are called. -/
def recorded (p : Program K D σ) : Program K D (σ × List (Call D)) where
  code := p.code
  captures := p.captures
  stackSize := p.stackSize
  tolerances := p.tolerances
  natives := recordCalls p.natives

/-- A run leaves the values of all expressions, the last one on top. -/
theorem runOn_eq_evaluateEach (hcompare : Scalar.ComparesOrdered D) {es : List (Expr K)}
    (h : Expr.emitEach env es .empty = .ok a) (setting : Setting D) (leftover : List D)
    (host : σ) :
    ∃ values host', (Expr.evaluateEach env setting es).outcome host = (.ok values, host') ∧
      values.length = es.length ∧
      ((ofAssembly env a).runOn setting leftover).run host =
        (pop Scalar.undefined values.reverse, host') := by
  have hplaced := (Expr.emitEach_placed h).placed
  have hsound := Expr.emitEach_sound h
  have hcomputes : Expr.ComputesEach env a setting es 0 a.code.size :=
    hplaced.computes fun _ _ => Expr.Placed.computes hcompare
  obtain ⟨values, host', hvalues, hlength, trace, hpasses⟩ := hcomputes [] host
  refine ⟨values, host', hvalues, hlength, ?_⟩
  have hstart : Level a (⟨0, [], host⟩ : Moment D σ) :=
    ⟨Nat.zero_le _, hsound.start.symm, Nat.zero_le _⟩
  -- no place is met twice, so there are no more steps than places
  obtain ⟨-, -, hsteps⟩ := hstart.passes hsound hpasses
  rw [List.append_nil] at hpasses
  exact runOn_of_passes hpasses (Array.getElem?_eq_none (Nat.le_refl _))
    (Nat.le_trans (Nat.le_add_left _ _) hsteps) leftover

/--
**A run does what evaluation of the expressions, one after another, does.**

It ends with the value of the last one, and with the same host. The functions called are the same,
with the same arguments and in the same order; so none is called for a value that a conditional
does not choose.
-/
theorem run_simulates_evaluate (hcompare : Scalar.ComparesOrdered D) {es : List (Expr K)}
    (hes : es ≠ []) (h : Expr.emitEach env es .empty = .ok a) (setting : Setting D)
    (leftover : List D) (host : σ) :
    ∃ values last rest host' calls,
      (Expr.evaluateEach env setting es).outcome host = (.ok (values ++ [last]), host') ∧
      ((ofAssembly env a).runOn setting leftover).run host = ((last, rest), host') ∧
      (Expr.evaluateEach env.recorded setting es).outcome (host, []) =
        (.ok (values ++ [last]), (host', calls)) ∧
      ((ofAssembly env a).recorded.runOn setting leftover).run (host, []) =
        ((last, rest), (host', calls)) := by
  obtain ⟨values, host', hvalues, hlength, hrun⟩ :=
    runOn_eq_evaluateEach hcompare h setting leftover host
  have hrecorded : Expr.emitEach env.recorded es .empty = .ok a :=
    (Expr.emitEach_recorded es .empty).trans h
  obtain ⟨values', ⟨host'', calls⟩, hvalues', -, hrun'⟩ :=
    runOn_eq_evaluateEach hcompare hrecorded setting leftover (host, [])
  -- noting the calls down changes neither the values nor the host
  obtain ⟨hagree, hhost⟩ := Expr.evaluateEach_recorded env setting es (host, []) host rfl
  rw [hvalues, hvalues'] at hagree hhost
  cases hagree with
  | ok hsame =>
    rw [List.forall₂_eq_eq_eq] at hsame
    subst hsame
    obtain rfl : host'' = host' := hhost
    have hne : values' ≠ [] := by
      rintro rfl
      exact hes (List.length_eq_zero_iff.mp hlength.symm)
    obtain ⟨front, last, rfl⟩ := List.eq_nil_or_concat values' |>.resolve_left hne
    rw [List.concat_eq_append] at *
    rw [List.reverse_append] at hrun hrun'
    exact ⟨front, last, front.reverse, host'', calls, hvalues, hrun, hvalues', hrun'⟩

/-- Two expressions on one assembly, on a host that counts. -/
theorem run_simulates_evaluate_metered :
    ∃ a, Expr.emitEach .metered [.sample, .const 5] .empty = .ok a ∧
      ∀ setting leftover host, ∃ values last rest host' calls,
        (Expr.evaluateEach (Environment.metered).recorded setting [.sample, .const 5]).outcome
            (host, []) = (.ok (values ++ [last]), (host', calls)) ∧
          ((ofAssembly .metered a).recorded.runOn setting leftover).run (host, []) =
            ((last, rest), (host', calls)) := by
  obtain ⟨a, h⟩ : ∃ a, Expr.emitEach .metered [.sample, .const 5] .empty = .ok a := ⟨_, rfl⟩
  refine ⟨a, h, fun setting leftover host => ?_⟩
  obtain ⟨values, last, rest, host', calls, -, -, hvalues, hrun⟩ :=
    run_simulates_evaluate Scalar.comparesOrdered_real (by simp) h setting leftover host
  exact ⟨values, last, rest, host', calls, hvalues, hrun⟩

end Program

end CircuitExpr
