import Mathlib
import CircuitExpr.Behavior.Basic
import CircuitExpr.Proofs.Behavior.Build
import CircuitExpr.Proofs.Behavior.Steady
import CircuitExpr.Proofs.Derivative.Targets

/-!
# Behaviors never serve stale values

A solver moves the sources of a behavior and asks it for its value, for single derivatives, for
all of them and for responses to small changes, in any order and as often as it likes. The
evaluators keep their buffers all the while. A session is such a run of requests; what it answers
is told from `Readings`, which are functions of the setting alone.

The symbolic derivatives and the evaluators made of them stand in two maps that are filled one
after the other. Both have their entries in the order of the targets, so that the answers to
different requests belong together.

## Main statements

* `Behavior.SteadyAs.serve` — a request leaves a behavior that goes on in the same way
* `Behavior.SteadyAs.serves` — all answers of a session are readings of the current setting
* `Behavior.Current`, `Behavior.Interprets` — what the readings are
* `Behavior.serves_current` — every behavior that is built serves current values
-/

namespace CircuitExpr

open List (Forall₂)

namespace Behavior

/-! ## Sessions -/

section Session

variable {K D σ : Type} [Literal K] [Scalar D K]

/-- What a solver does: it moves the sources, or asks for numbers. -/
inductive Request (D : Type) where
  | update (setting : Setting D)
  | value
  | derivative (v : Variable)
  | jacobian
  | smallSignal (excitation : Bindings)

/-- What it is answered. -/
inductive Answer (D : Type) where
  | updated
  | value (x : D)
  | derivative (x : Option D)
  | jacobian (xs : List D)
  | smallSignal (x : Except ExpressionError D)

/-- The setting after a request. -/
def Request.settingAfter : Request D → Setting D → Setting D
  | .update setting, _ => setting
  | _, setting => setting

/-- The answer to a request, and the behavior for the next one. -/
def serve (b : Behavior K D σ) (setting : Setting D) :
    Request D → StateM σ (Answer D × Behavior K D σ)
  | .update _ => return (.updated, b)
  | .value => do
    let (x, b) ← b.callValue setting
    return (.value x, b)
  | .derivative v => do
    let (x, b) ← b.callDerivative setting v
    return (.derivative x, b)
  | .jacobian => do
    let (xs, b) ← b.callJacobian setting
    return (.jacobian xs, b)
  | .smallSignal excitation => do
    let (x, b) ← b.callSmallSignal excitation setting
    return (.smallSignal x, b)

/-- The answers to a run of requests, from a setting of the sources on. -/
def session (b : Behavior K D σ) (setting : Setting D) :
    List (Request D) → StateM σ (List (Answer D))
  | [] => return []
  | r :: rest => do
    let (x, b) ← b.serve setting r
    return x :: (← session b (r.settingAfter setting) rest)

/-! ## Readings -/

/-- What there is to be answered at one setting. -/
structure Readings (D : Type) where
  value : D
  derivative : Variable → Option D
  jacobian : List D
  smallSignal : Bindings → Except ExpressionError D

/-- The answer to a request. -/
def Readings.answer (x : Readings D) : Request D → Answer D
  | .update _ => .updated
  | .value => .value x.value
  | .derivative v => .derivative (x.derivative v)
  | .jacobian => .jacobian x.jacobian
  | .smallSignal excitation => .smallSignal (x.smallSignal excitation)

/-- The answers to a run of requests, each from the readings of the setting of the moment. -/
def answers (readings : Setting D → Readings D) :
    Setting D → List (Request D) → List (Answer D)
  | _, [] => []
  | setting, r :: rest =>
    (readings setting).answer r :: answers readings (r.settingAfter setting) rest

/-- Every session is answered from the readings, and leaves the host as it is. -/
def Serves (b : Behavior K D σ) (readings : Setting D → Readings D) : Prop :=
  ∀ setting requests host,
    (b.session setting requests).run host = (answers readings setting requests, host)

/-- The change of a target. -/
def change (excitation : Bindings) (setting : Setting D) (v : Variable) :
    Except ExpressionError D :=
  match excitation.get? v with
  | some source => .ok (setting source)
  | none => .error (.unboundVariable v.text)

/-- Adds each slope times its change, from left to right. -/
def accumulate (total : D) (slopes changes : List D) : D :=
  (slopes.zip changes).foldl (fun total term => total + term.1 * term.2) total

/-- The response of slopes by targets, or the first target that has no change. -/
def response (excitation : Bindings) (setting : Setting D) (targets : List Variable)
    (slopes : List D) : Except ExpressionError D :=
  (targets.mapM (change excitation setting)).map (accumulate Scalar.zero slopes)

/-- The readings of a value and of slopes by targets, which are found at given places. -/
def readings (value : Setting D → D) (place : Variable → Option Nat)
    (slopes : List (Variable × (Setting D → D))) (setting : Setting D) : Readings D where
  value := value setting
  derivative v := (place v).bind fun k => slopes[k]?.map (·.2 setting)
  jacobian := slopes.map (·.2 setting)
  smallSignal excitation :=
    response excitation setting (slopes.map Prod.fst) (slopes.map (·.2 setting))

end Session

/-! ## Steady behaviors -/

section Steady

variable {K D σ : Type}

/-- A steady evaluator opposite its target and slope. -/
structure SteadyEntry (entry : Variable × Evaluator D σ)
    (slope : Variable × (Setting D → D)) : Prop where
  target : entry.1 = slope.1
  steady : entry.2.Steady slope.2

/--
All evaluators of a behavior are steady, its targets are those of the slopes, and derivatives are
found at these places.
-/
structure SteadyAs (b : Behavior K D σ) (value : Setting D → D) (place : Variable → Option Nat)
    (slopes : List (Variable × (Setting D → D))) : Prop where
  value : b.value.Steady value
  targets : b.targets = slopes.map Prod.fst
  place : ∀ v, b.derivatives.place? v = place v
  slopes : Forall₂ SteadyEntry b.derivatives.entries slopes

variable {b : Behavior K D σ} {value : Setting D → D} {place : Variable → Option Nat}
  {slopes : List (Variable × (Setting D → D))} {entries : List (Variable × Evaluator D σ)}

theorem SteadyEntry.targets (h : Forall₂ SteadyEntry entries slopes) :
    entries.map Prod.fst = slopes.map Prod.fst := by
  induction h with
  | nil => rfl
  | cons hentry _ ih => rw [List.map_cons, List.map_cons, hentry.target, ih]

theorem SteadyAs.callValue (h : b.SteadyAs value place slopes) (setting : Setting D) (host : σ) :
    ∃ b' : Behavior K D σ, b'.SteadyAs value place slopes ∧
      (b.callValue setting).run host = ((value setting, b'), host) := by
  obtain ⟨d, hd, hrun⟩ := h.value.call setting host
  exact ⟨{ b with value := d }, ⟨hd, h.targets, h.place, h.slopes⟩, run_bind_of_run hrun⟩

/-- What stands opposite an element. -/
theorem exists_of_forall₂ {α β : Type} {R : α → β → Prop} {xs : List α} {ys : List β}
    (h : Forall₂ R xs ys) {k : Nat} {x : α} (hx : xs[k]? = some x) :
    ∃ y, ys[k]? = some y ∧ R x y := by
  obtain ⟨hk, rfl⟩ := List.getElem?_eq_some_iff.mp hx
  have hk' : k < ys.length := h.length_eq ▸ hk
  exact ⟨ys[k], List.getElem?_eq_getElem hk', h.get hk hk'⟩

/-- Elements that stand opposite each other stay related when one of them changes. -/
theorem forall₂_modify {α β : Type} {R : α → β → Prop} {xs : List α} {ys : List β} {f : α → α}
    (h : Forall₂ R xs ys) (k : Nat) (hf : ∀ x y, xs[k]? = some x → ys[k]? = some y → R (f x) y) :
    Forall₂ R (xs.modify k f) ys := by
  induction h generalizing k with
  | nil =>
    rw [List.modify_nil]
    exact .nil
  | cons hxy hrest ih =>
    cases k with
    | zero => exact .cons (hf _ _ rfl rfl) hrest
    | succ k => exact .cons hxy (ih k fun x y hx hy => hf x y hx hy)

theorem place?_replace {A : Type} (m : VariableMap A) (v w : Variable) (a : A) :
    (m.replace v a).place? w = m.place? w := by
  unfold VariableMap.replace
  split <;> rfl

theorem SteadyAs.callDerivative (h : b.SteadyAs value place slopes) (setting : Setting D)
    (v : Variable) (host : σ) :
    ∃ b' : Behavior K D σ, b'.SteadyAs value place slopes ∧
      (b.callDerivative setting v).run host =
        (((place v).bind fun k => slopes[k]?.map (·.2 setting), b'), host) := by
  rw [← h.place v]
  cases hk : b.derivatives.place? v with
  | none =>
    refine ⟨b, h, ?_⟩
    rw [Behavior.callDerivative, VariableMap.get?, hk]
    rfl
  | some k =>
    cases hentry : b.derivatives.entries[k]? with
    | none =>
      have hslope : slopes[k]? = none :=
        List.getElem?_eq_none (h.slopes.length_eq ▸ List.getElem?_eq_none_iff.mp hentry)
      refine ⟨b, h, ?_⟩
      rw [Behavior.callDerivative, VariableMap.get?, hk, Option.bind_some, Option.bind_some, hentry,
        hslope]
      rfl
    | some entry =>
      obtain ⟨slope, hslope, hsteady⟩ := exists_of_forall₂ h.slopes hentry
      obtain ⟨d, hd, hrun⟩ := hsteady.steady.call setting host
      refine ⟨{ b with derivatives := b.derivatives.replace v d },
        ⟨h.value, h.targets, fun w => ?_, ?_⟩, ?_⟩
      · rw [place?_replace]
        exact h.place w
      · rw [VariableMap.replace, hk]
        refine forall₂_modify h.slopes k fun x y hx hy => ?_
        obtain rfl := Option.some.inj (hentry.symm.trans hx)
        obtain rfl := Option.some.inj (hslope.symm.trans hy)
        exact ⟨hsteady.target, hd⟩
      · rw [Behavior.callDerivative, VariableMap.get?, hk, Option.bind_some, Option.bind_some,
          hentry, hslope]
        exact run_bind_of_run hrun

theorem SteadyEntry.callEach (h : Forall₂ SteadyEntry entries slopes) (setting : Setting D)
    (host : σ) :
    ∃ entries' : List (Variable × Evaluator D σ), Forall₂ SteadyEntry entries' slopes ∧
      (Behavior.callEach setting entries).run host =
        ((slopes.map (·.2 setting), entries'), host) := by
  induction h with
  | nil => exact ⟨[], .nil, rfl⟩
  | @cons entry slope rest slopes hentry _ ih =>
    obtain ⟨d, hd, hrun⟩ := hentry.steady.call setting host
    obtain ⟨rest', hrest, hruns⟩ := ih
    exact ⟨(entry.1, d) :: rest', .cons ⟨hentry.target, hd⟩ hrest,
      (run_bind_of_run hrun).trans (run_bind_of_run hruns)⟩

/-- What a call of all derivatives leaves in their place. -/
theorem SteadyAs.withEntries (h : b.SteadyAs value place slopes)
    (hentries : Forall₂ SteadyEntry entries slopes) :
    SteadyAs { b with derivatives := { b.derivatives with entries := entries } } value place
      slopes :=
  ⟨h.value, h.targets, h.place, hentries⟩

theorem SteadyAs.callJacobian (h : b.SteadyAs value place slopes) (setting : Setting D)
    (host : σ) :
    ∃ b' : Behavior K D σ, b'.SteadyAs value place slopes ∧
      (b.callJacobian setting).run host = ((slopes.map (·.2 setting), b'), host) := by
  obtain ⟨entries, hentries, hrun⟩ := SteadyEntry.callEach h.slopes setting host
  exact ⟨_, h.withEntries hentries, run_bind_of_run hrun⟩

/-- The result of a call is handed on as an answer, with the behavior that the call leaves. -/
theorem SteadyAs.answer {A : Type} {call : StateM σ (A × Behavior K D σ)} {x : A} {host : σ}
    (h : ∃ b' : Behavior K D σ, b'.SteadyAs value place slopes ∧
      call.run host = ((x, b'), host)) (f : A → Answer D) :
    ∃ b' : Behavior K D σ, b'.SteadyAs value place slopes ∧
      (call >>= fun result => pure (f result.1, result.2)).run host = ((f x, b'), host) := by
  obtain ⟨b', hb', hrun⟩ := h
  exact ⟨b', hb', run_bind_of_run hrun⟩

variable [Scalar D K]

/-- **A response sums over the targets**, up to the first one that has no change. -/
theorem SteadyEntry.respond (h : Forall₂ SteadyEntry entries slopes) (excitation : Bindings)
    (setting : Setting D) (total : D) (host : σ) :
    ∃ entries' : List (Variable × Evaluator D σ), Forall₂ SteadyEntry entries' slopes ∧
      (Behavior.respond excitation setting total entries).run host =
        ((((slopes.map Prod.fst).mapM (change excitation setting)).map
          (accumulate total (slopes.map (·.2 setting))), entries'), host) := by
  induction h generalizing total with
  | nil => exact ⟨[], .nil, rfl⟩
  | @cons entry slope rest slopes hentry hrest ih =>
    rw [Behavior.respond, List.map_cons, List.map_cons, List.mapM_cons, change, ← hentry.target]
    cases excitation.get? entry.1 with
    | none => exact ⟨entry :: rest, .cons hentry hrest, rfl⟩
    | some source =>
      obtain ⟨d, hd, hrun⟩ := hentry.steady.call setting host
      obtain ⟨rest', hrest', hruns⟩ := ih (total + slope.2 setting * setting source)
      refine ⟨(entry.1, d) :: rest', .cons ⟨hentry.target, hd⟩ hrest', ?_⟩
      refine ((run_bind_of_run hrun).trans (run_bind_of_run hruns)).trans ?_
      -- the targets behind it have all of their changes or lack one
      cases (slopes.map Prod.fst).mapM (change excitation setting) <;> rfl

variable [Literal K]

theorem SteadyAs.callSmallSignal (h : b.SteadyAs value place slopes) (excitation : Bindings)
    (setting : Setting D) (host : σ) :
    ∃ b' : Behavior K D σ, b'.SteadyAs value place slopes ∧
      (b.callSmallSignal excitation setting).run host =
        ((response excitation setting (slopes.map Prod.fst) (slopes.map (·.2 setting)), b'),
          host) := by
  obtain ⟨entries, hentries, hrun⟩ :=
    SteadyEntry.respond h.slopes excitation setting Scalar.zero host
  exact ⟨_, h.withEntries hentries, run_bind_of_run hrun⟩

/-- **A request is answered from the readings**, and the behavior goes on in the same way. -/
theorem SteadyAs.serve (h : b.SteadyAs value place slopes) (setting : Setting D) (r : Request D)
    (host : σ) :
    ∃ b' : Behavior K D σ, b'.SteadyAs value place slopes ∧
      (b.serve setting r).run host =
        (((readings value place slopes setting).answer r, b'), host) := by
  cases r with
  | update _ => exact ⟨b, h, rfl⟩
  | value => exact answer (h.callValue setting host) .value
  | derivative v => exact answer (h.callDerivative setting v host) .derivative
  | jacobian => exact answer (h.callJacobian setting host) .jacobian
  | smallSignal excitation => exact answer (h.callSmallSignal excitation setting host) .smallSignal

/-- **A steady behavior serves its readings**, over sessions of any length. -/
theorem SteadyAs.serves (h : b.SteadyAs value place slopes) :
    b.Serves (readings value place slopes) := by
  intro setting requests host
  induction requests generalizing b setting with
  | nil => rfl
  | cons r rest ih =>
    obtain ⟨b', hb', hrun⟩ := h.serve setting r host
    exact (run_bind_of_run hrun).trans (run_bind_of_run (ih hb' _))

end Steady

/-! ## What is answered -/

section Answers

variable {K D σ : Type} [Literal K] [Scalar D K]

/--
A behavior of an expression serves these readings. There is one derivative for each target, each
target once and in the order given, and it is the same however it is asked for.
-/
structure Current (c : NameComparison) (targets : List Variable) (e : Expr K)
    (b : Behavior K D σ) (r : Setting D → Readings D) : Prop where
  expr : b.expr = e
  serves : b.Serves r
  order : b.targets.map c.key = (Expr.firstOccurrences c [] targets).map c.key
  length : ∀ setting, (r setting).jacobian.length = b.targets.length
  /-- The spelling of a target does not matter. -/
  entry : ∀ setting (k : Nat) (t v : Variable), b.targets[k]? = some t →
    c.same t v = true → (r setting).derivative v = (r setting).jacobian[k]?
  isSome : ∀ setting v,
    ((r setting).derivative v).isSome = true ↔ ∃ t ∈ targets, c.same t v = true
  /-- Small changes are answered by all derivatives of the moment. -/
  smallSignal : ∀ setting excitation,
    (r setting).smallSignal excitation =
      response excitation setting b.targets (r setting).jacobian

/-- The readings are the values of the expression and of its symbolic derivatives, up to `V`. -/
structure Interprets (env : Environment K D σ) (V : D → D → Prop) (e : Expr K)
    (b : Behavior K D σ) (r : Setting D → Readings D) : Prop where
  value : ∀ setting host, ∃ y,
    (e.evaluate env setting).outcome host = (.ok y, host) ∧ V y (r setting).value
  derivative : ∀ setting (k : Nat) (t : Variable), b.targets[k]? = some t →
    ∃ d x, b.expressions.get? t = some d ∧ (r setting).jacobian[k]? = some x ∧
      d.ReadAs env setting V x

end Answers

/-! ## What was built -/

section Maps

variable {A B : Type} {m : VariableMap A} {m' : VariableMap B} {v : Variable}

/-- Maps with the same variables in the same order find them in the same places. -/
theorem place?_congr (hm : m.Indexed) (hm' : m'.Indexed) (hc : m'.comparison = m.comparison)
    (hkeys : m'.keys = m.keys) (v : Variable) : m'.place? v = m.place? v := by
  ext k
  rw [hm.place?_eq_some, hm'.place?_eq_some, VariableMap.lookupKeys, VariableMap.lookupKeys,
    hkeys, hc]

theorem place?_isSome (hm : m.Indexed) :
    (m.place? v).isSome = true ↔ m.comparison.key v ∈ m.lookupKeys := by
  rw [Option.isSome_iff_ne_none, ne_eq, hm.place?_eq_none, not_not]

/-- A variable has the place where it stands. -/
theorem place?_of_keys (hm : m.Indexed) {k : Nat} {t : Variable} (ht : m.keys[k]? = some t)
    (hsame : m.comparison.same t v = true) : m.place? v = some k := by
  rw [hm.place?_eq_some, VariableMap.lookupKeys, List.getElem?_map, ht, Option.map_some,
    NameComparison.same_iff_key_eq.mp hsame]

end Maps

section Built

variable {K D σ : Type} [Literal K] [Domain D K] {env : Environment K D σ} {e : Expr K}
  {options : BuildOptions K} {b : Behavior K D σ}

/-- Two passes fill the maps: the expression is derived, and then all results are built. -/
theorem build_eq_ok (h : build env e options = .ok b) :
    let c := env.bindings.comparison
    let env := prepare env options
    b.expr = e ∧ Evaluator.build env e options.backend = .ok b.value ∧
      e.deriveTargets env.functions c (targetsOf c e options) = .ok b.expressions ∧
      b.expressions.mapM (fun _ d => Evaluator.build env d options.backend) =
        .ok b.derivatives := by
  intro c env'
  unfold build at h
  dsimp only at h
  split at h
  · exact nomatch h
  · cases hcompile : compile env' e options.backend (targetsOf c e options) with
    | error x => exact nomatch h.symm.trans (congrArg (Except.mapError _) hcompile)
    | ok b' =>
      obtain rfl : b' = b := Except.ok.inj ((congrArg (Except.mapError _) hcompile).symm.trans h)
      obtain ⟨value, hvalue, hrest⟩ := bind_eq_ok.mp hcompile
      obtain ⟨expressions, hexpressions, hrest⟩ := bind_eq_ok.mp hrest
      obtain ⟨derivatives, hderivatives, hrest⟩ := bind_eq_ok.mp hrest
      obtain rfl := Except.ok.inj hrest
      exact ⟨rfl, hvalue, hexpressions, hderivatives⟩

/-- Each evaluator that is built of a symbolic derivative has a slope that it is read for. -/
theorem exists_slopes {env : Environment K D σ} {backend : Backend}
    {expressions : List (Variable × Expr K)} {derivatives : List (Variable × Evaluator D σ)}
    (hD : Evaluator.NativeSteady D) (hcompare : Scalar.ComparesOrdered D)
    (hpure : ∀ entry ∈ expressions, env.PureFor entry.2)
    (h : Forall₂ (fun entry made => Evaluator.build env entry.2 backend = .ok made.2) expressions
      derivatives) :
    ∃ slopes : List (Variable × (Setting D → D)), Forall₂ SteadyEntry derivatives slopes ∧
      Forall₂ (fun entry slope => entry.2.ReadBy env slope.2 backend) expressions slopes := by
  induction h with
  | nil => exact ⟨[], .nil, .nil⟩
  | @cons _ made _ _ hentry _ ih =>
    obtain ⟨hfirst, hrest⟩ := List.forall_mem_cons.mp hpure
    obtain ⟨slope, hsteady, hread⟩ := Evaluator.exists_steady_of_build hD hcompare hfirst hentry
    obtain ⟨slopes, hslopes, hreads⟩ := ih hrest
    exact ⟨(made.1, slope) :: slopes, .cons ⟨rfl, hsteady⟩ hslopes, .cons hread hreads⟩

section Readings

variable {c : NameComparison} {targets : List Variable} {value : Setting D → D}
  {slopes : List (Variable × (Setting D → D))}

/-- Steady evaluators are read as long as the derivatives stand where the targets do. -/
theorem SteadyAs.current (h : b.SteadyAs value b.expressions.place? slopes) (hexpr : b.expr = e)
    (hc : b.expressions.comparison = c) (hindexed : b.expressions.Indexed)
    (hlookup : b.expressions.lookupKeys = (Expr.firstOccurrences c [] targets).map c.key) :
    Current c targets e b (readings value b.expressions.place? slopes) where
  expr := hexpr
  serves := h.serves
  order := by
    rw [← hlookup, VariableMap.lookupKeys, hc]
    rfl
  length setting := by
    rw [readings, List.length_map, h.targets, List.length_map]
  entry setting k t v ht hsame := by
    rw [← hc] at hsame
    simp only [readings, place?_of_keys hindexed ht hsame, Option.bind_some, List.getElem?_map]
  isSome setting v := by
    have hmem : (b.expressions.place? v).isSome = true ↔
        ∃ t ∈ targets, c.same t v = true := by
      rw [place?_isSome hindexed, hlookup, Expr.mem_map_key_firstOccurrences, hc]
      simp only [NameComparison.same_iff_key_eq, List.mem_map, List.not_mem_nil,
        not_false_eq_true, and_true]
    rw [← hmem]
    cases hk : b.expressions.place? v with
    | none => simp only [readings, hk, Option.bind_none, Option.isSome_none]
    | some k =>
      have hlength := congrArg List.length h.targets
      rw [Behavior.targets, VariableMap.keys, List.length_map, List.length_map] at hlength
      have hlt : k < slopes.length := hlength ▸ hindexed.lt_length hk
      simp only [readings, hk, Option.bind_some, List.getElem?_eq_getElem hlt, Option.map_some,
        Option.isSome_some]
  smallSignal setting excitation := by
    rw [h.targets]
    rfl

/-- What is read for the value and for each derivative are the readings of both. -/
theorem interprets_readings {V : D → D → Prop} (hplain : e.Plain)
    (hindexed : b.expressions.Indexed)
    (hvalue : ∀ setting, e.ReadAs env setting V (value setting))
    (hslopes : Forall₂
      (fun entry slope => ∀ setting, entry.2.ReadAs env setting V (slope.2 setting))
      b.expressions.entries slopes) :
    Interprets env V e b (readings value b.expressions.place? slopes) where
  value setting host := (hvalue setting).of_plain hplain host
  derivative setting k t ht := by
    obtain ⟨entry, hentry, rfl⟩ :
        ∃ entry, b.expressions.entries[k]? = some entry ∧ entry.1 = t := by
      rw [targets, VariableMap.keys, List.getElem?_map] at ht
      exact Option.map_eq_some_iff.mp ht
    obtain ⟨slope, hslope, hread⟩ := exists_of_forall₂ hslopes hentry
    refine ⟨entry.2, slope.2 setting, ?_, ?_, hread setting⟩
    · have hsame : b.expressions.comparison.same entry.1 entry.1 = true :=
        NameComparison.same_iff_key_eq.mpr rfl
      rw [VariableMap.get?, place?_of_keys hindexed ht hsame, Option.bind_some, hentry,
        Option.map_some]
    · simp only [readings, List.getElem?_map, hslope, Option.map_some]

end Readings

/--
**A behavior that is built has current readings.** They are values up to `V` wherever what a
backend is read for can be read as the value up to `V`.
-/
theorem exists_readings (hD : Evaluator.NativeSteady D) (hcompare : Scalar.ComparesOrdered D)
    (hplain : e.Plain) (h : build env e options = .ok b)
    (hpure : (prepare env options).PureFunctions)
    (hext : ∀ entry ∈ b.expressions.entries,
      entry.2.Plain ∨ (prepare env options).PureExtension) :
    ∃ r : Setting D → Readings D,
      Current env.bindings.comparison (targetsOf env.bindings.comparison e options) e b r ∧
      ∀ V : D → D → Prop,
        (∀ (d : Expr K) (x : Setting D → D), d.ReadBy (prepare env options) x options.backend →
          ∀ setting, d.ReadAs (prepare env options) setting V (x setting)) →
        Interprets (prepare env options) V e b r := by
  obtain ⟨hexpr, hvalue, hexpressions, hderivatives⟩ := build_eq_ok h
  obtain ⟨hc, hindexed, hlookup⟩ := Expr.deriveTargets_eq_ok hexpressions
  obtain ⟨hc', hindexed', hkeys, hbuilt⟩ := hindexed.mapM_eq_ok hderivatives
  obtain ⟨value, hsteady, hread⟩ :=
    Evaluator.exists_steady_of_build hD hcompare ⟨hpure, .inl hplain⟩ hvalue
  obtain ⟨slopes, hslopes, hreads⟩ :=
    exists_slopes hD hcompare (fun entry h => ⟨hpure, hext entry h⟩) hbuilt
  have hplace : ∀ v, b.derivatives.place? v = b.expressions.place? v :=
    place?_congr hindexed hindexed' hc' hkeys
  have htargets : b.targets = slopes.map Prod.fst :=
    hkeys.symm.trans (SteadyEntry.targets hslopes)
  have hsteadyAs : b.SteadyAs value b.expressions.place? slopes :=
    ⟨hsteady, htargets, hplace, hslopes⟩
  refine ⟨readings value b.expressions.place? slopes,
    hsteadyAs.current hexpr hc hindexed hlookup, fun V hV => ?_⟩
  exact interprets_readings hplain hindexed (hV e value hread)
    (hreads.imp fun (entry : Variable × Expr K) (slope : Variable × (Setting D → D)) =>
      hV entry.2 slope.2)

end Built

/-! ## Real and complex behaviors -/

/--
**A behavior that is built never serves stale values.** Nothing in the expression is left to the
host, and functions are pure; so are extension nodes, if a rule has brought any into a derivative.
Then each answer, in sessions of any length, is a function of the setting of the moment.

The value is that of the expression, and the derivatives are those of the symbolic derivatives:
exactly, if they are interpreted, and for compiled real behaviors up to any equivalence that
everything respects and under which neutral elements make no difference.
-/
theorem serves_current {K σ : Type} [RealFunctions K] (hone : (1 : K) - 1 = 0)
    (hzero : (1 : K) - 0 = 1) {e : Expr K} (hplain : e.Plain) (options : BuildOptions K) :
    (∀ (env : Environment K K σ) (b : Behavior K K σ), build env e options = .ok b →
      (prepare env options).PureFunctions →
      (∀ d ∈ b.expressions.entries, d.2.Plain ∨ (prepare env options).PureExtension) →
      let c := env.bindings.comparison
      ∃ r, Current c (targetsOf c e options) e b r ∧
        (options.backend = .interpreted → Interprets (prepare env options) Eq e b r) ∧
        ∀ V, (prepare env options).Admits V → Interprets (prepare env options) V e b r) ∧
    ∀ (env : Environment K (Complex K) σ) (b : Behavior K (Complex K) σ),
      build env e options = .ok b → (prepare env options).PureFunctions →
      (∀ d ∈ b.expressions.entries, d.2.Plain ∨ (prepare env options).PureExtension) →
      let c := env.bindings.comparison
      ∃ r, Current c (targetsOf c e options) e b r ∧
        (options.backend = .interpreted → Interprets (prepare env options) Eq e b r) := by
  constructor
  · intro env b hb hpure hext c
    obtain ⟨r, hcurrent, hread⟩ := exists_readings (Evaluator.nativeSteady_real hone hzero)
      Scalar.comparesOrdered_real hplain hb hpure hext
    refine ⟨r, hcurrent, fun hbackend => hread Eq fun d x hx => ?_, fun V hV =>
      hread V fun d x hx => hx.readAs hV⟩
    rwa [hbackend] at hx
  · intro env b hb hpure hext c
    obtain ⟨r, hcurrent, hread⟩ := exists_readings Evaluator.nativeSteady_complex
      Scalar.comparesOrdered_complex hplain hb hpure hext
    refine ⟨r, hcurrent, fun hbackend => hread Eq fun d x hx => ?_⟩
    rwa [hbackend] at hx

end Behavior

/-! ## A small behavior -/

/-- One variable in any case, and one pure function `f`, which doubles. -/
def Environment.doubling : Environment Float Float Unit where
  bindings := (Bindings.empty .caseInsensitive).bind .sample 0
  functions := FunctionTable.empty.register "f"
    ⟨.exactly 1, .host 0, some (List.map fun _ => .const 2)⟩
  tolerances := .default
  natives := Native.call fun _ arguments => pure (arguments.headD 0 + arguments.headD 0)
  extension := none

theorem Environment.doubling_get? {name : String} {d : FunctionDefinition Float}
    (h : Environment.doubling.functions.get? name = some d) : d.native = .host 0 := by
  rw [Environment.doubling, FunctionTable.get?_register] at h
  split at h
  · obtain rfl := Option.some.inj h
    rfl
  · exact nomatch h

theorem Environment.doubling_call (arguments : List Float) (host : Unit) :
    (Environment.doubling.natives (.host 0) arguments).run host =
      (arguments.headD 0 + arguments.headD 0, host) := rfl

theorem Environment.doubling_pure : Environment.doubling.PureFunctions := by
  intro name d hd values
  rw [doubling_get? hd]
  exact ⟨_, doubling_call values⟩

/-- Doubling respects the signs of zeros. -/
theorem Environment.doubling_admits : Environment.doubling.Admits Binary64.Alike where
  similarity := alike_similarity
  power := alike_powerRespects
  zero := alike_neutralZero
  one := alike_neutralOne
  functions name count d hd := by
    rw [doubling_get? (FunctionTable.resolve_eq_ok_iff.mp hd).1]
    rintro xs ys - hxs s _ rfl
    rw [doubling_call, doubling_call]
    refine ⟨?_, rfl⟩
    cases hxs with
    | nil => exact .refl _
    | cons h _ => exact h.add h

/-- Twice a square. -/
def Expr.doubled : Expr Float := .binary .mul (.call "f" [.var .sample]) (.var .sample)

/-- Native code, and a target that is given twice, in two spellings. -/
def BuildOptions.respelled : BuildOptions Float :=
  { BuildOptions.default with targets := some [.sample, .voltage "X"] }

/-- A behavior of doubles, up to the signs of zeros. -/
theorem Behavior.serves_current_doubling :
    ∃ b, build Environment.doubling .doubled .respelled = .ok b ∧ ∃ r,
      Current .caseInsensitive [.sample, .voltage "X"] .doubled b r ∧
      Interprets Environment.doubling Binary64.Alike .doubled b r := by
  have hplain : Expr.doubled.Plain := .binary .mul
    (.call "f" (List.forall_mem_singleton.mpr (.var .sample))) (.var .sample)
  obtain ⟨b, hb⟩ : ∃ b, build Environment.doubling .doubled .respelled = .ok b := ⟨_, rfl⟩
  have hone : (1 : Float) - 1 = 0 := by decide +kernel
  have hzero : (1 : Float) - 0 = 1 := by decide +kernel
  obtain ⟨r, hcurrent, -, hread⟩ := (serves_current hone hzero hplain .respelled).1
    Environment.doubling b hb Environment.doubling_pure fun _ _ => .inr nofun
  exact ⟨b, hb, r, hcurrent, hread _ Environment.doubling_admits⟩

end CircuitExpr
