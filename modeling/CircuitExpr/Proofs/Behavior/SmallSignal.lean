import Mathlib
import CircuitExpr.Proofs.Behavior.Session

/-!
# The response to small signals is the Jacobian applied to them

A response is summed up from target to target: a derivative is evaluated, multiplied by the change
of its target and added. The changes are looked up in bindings of their own, which may compare
names otherwise than the behavior does, and the sum stops at the first target without a change.
With pure functions the derivatives are those of the Jacobian at the same setting, whatever was
asked of the behavior before.

## Main statements

* `Behavior.Reached.steadyAs` — a session keeps the targets and the slopes of a behavior
* `Behavior.SteadyAs.responds` — the sum over the targets, or the first one without a change
* `Behavior.smallSignal_applies_jacobian` — for every behavior that is built
-/

namespace CircuitExpr

open List (Forall₂)

namespace Behavior

/-! ## Behaviors in use -/

section Reached

variable {K D σ : Type} [Literal K] [Scalar D K] {b b' : Behavior K D σ} {value : Setting D → D}
  {place : Variable → Option Nat} {slopes : List (Variable × (Setting D → D))}

/-- What has become of a behavior by requests at any settings. -/
inductive Reached (b : Behavior K D σ) : Behavior K D σ → Prop where
  | built : Reached b b
  | served {b' : Behavior K D σ} (h : Reached b b') (setting : Setting D) (r : Request D)
      (host : σ) : Reached b ((b'.serve setting r).run host).1.2

/-- **All of a session is steady** if its beginning is. -/
theorem Reached.steadyAs (h : b.Reached b') (hb : b.SteadyAs value place slopes) :
    b'.SteadyAs value place slopes := by
  induction h with
  | built => exact hb
  | served _ setting r host ih =>
    obtain ⟨next, hnext, hrun⟩ := ih.serve setting r host
    rwa [hrun]

end Reached

/-! ## Changes of the targets -/

section Changes

variable {D : Type} {excitation : Bindings} {setting : Setting D} {v : Variable}

theorem change_eq_ok {x : D} :
    change excitation setting v = .ok x ↔ ∃ source, excitation.get? v = some source ∧
      setting source = x := by
  unfold change
  cases excitation.get? v with
  | none => exact ⟨nofun, fun ⟨_, h, _⟩ => nomatch h⟩
  | some source =>
    constructor
    · exact fun h => ⟨source, rfl, Except.ok.inj h⟩
    · rintro ⟨_, ⟨⟩, rfl⟩
      rfl

theorem exists_change_iff :
    (∃ x : D, change excitation setting v = .ok x) ↔ excitation.contains v = true := by
  simp only [change_eq_ok, Bindings.contains, Option.isSome_iff_exists]
  exact ⟨fun ⟨_, source, h, _⟩ => ⟨source, h⟩, fun ⟨source, h⟩ => ⟨_, source, h, rfl⟩⟩

theorem change_eq_error {x : ExpressionError} :
    change excitation setting v = .error x ↔
      excitation.contains v = false ∧ x = .unboundVariable v.text := by
  unfold change Bindings.contains
  cases excitation.get? v with
  | none => exact ⟨fun h => ⟨rfl, (Except.error.inj h).symm⟩, fun ⟨_, h⟩ => h ▸ rfl⟩
  | some source => exact ⟨nofun, nofun⟩

end Changes

/-! ## Responses -/

section Response

variable {K D σ : Type} [Literal K] [Scalar D K] {b : Behavior K D σ}

/--
The Jacobian has these values, one for each target. The response to an excitation exists where each
target is bound in it, and is the sum of the values times the changes of their targets. Otherwise
the first target that is not bound is to blame.
-/
structure Responds (b : Behavior K D σ) (slopes : List D) (excitation : Bindings)
    (setting : Setting D) (host : σ) : Prop where
  jacobian : (b.jacobian setting).run host = (slopes, host)
  length : slopes.length = b.targets.length
  exists_iff : (∃ x, ((b.smallSignal excitation setting).outcome host).1 = .ok x) ↔
    ∀ t ∈ b.targets, excitation.contains t = true
  sum : ∀ sources, Forall₂ (fun t source => excitation.get? t = some source) b.targets sources →
    (b.smallSignal excitation setting).outcome host =
      (.ok (accumulate Scalar.zero slopes (sources.map setting)), host)
  unbound : ∀ before t after, b.targets = before ++ t :: after →
    (∀ u ∈ before, excitation.contains u = true) → excitation.contains t = false →
      (b.smallSignal excitation setting).outcome host =
        (.error (.unboundVariable t.text), host)

/-- A steady behavior responds by its slopes. -/
theorem SteadyAs.responds {value : Setting D → D} {place : Variable → Option Nat}
    {slopes : List (Variable × (Setting D → D))} (h : b.SteadyAs value place slopes)
    (excitation : Bindings) (setting : Setting D) (host : σ) :
    b.Responds (slopes.map (·.2 setting)) excitation setting host := by
  have houtcome : (b.smallSignal excitation setting).outcome host =
      ((b.targets.mapM (change excitation setting)).map
        (accumulate Scalar.zero (slopes.map (·.2 setting))), host) := by
    obtain ⟨_, -, hrun⟩ := h.callSmallSignal excitation setting host
    rw [h.targets]
    exact run_bind_of_run hrun
  constructor
  · obtain ⟨_, -, hrun⟩ := h.callJacobian setting host
    exact run_bind_of_run hrun
  · rw [h.targets, List.length_map, List.length_map]
  · rw [houtcome]
    have hchanges : (∀ t ∈ b.targets, excitation.contains t = true) ↔
        ∃ changes, b.targets.mapM (change excitation setting) = .ok changes := by
      rw [mapM_succeeds_iff]
      exact forall₂_congr fun t _ => exists_change_iff.symm
    rw [hchanges]
    cases b.targets.mapM (change excitation setting) with
    | error x =>
      constructor
      · rintro ⟨_, ⟨⟩⟩
      · rintro ⟨_, ⟨⟩⟩
    | ok changes => exact ⟨fun _ => ⟨changes, rfl⟩, fun _ => ⟨_, rfl⟩⟩
  · intro sources hsources
    have hchanges : b.targets.mapM (change excitation setting) = .ok (sources.map setting) := by
      rw [mapM_eq_ok_iff, List.forall₂_map_right_iff]
      exact hsources.imp fun _ _ hsource => change_eq_ok.mpr ⟨_, hsource, rfl⟩
    rw [houtcome, hchanges]
    rfl
  · intro before t after hsplit hbefore ht
    have hfailure : b.targets.mapM (change excitation setting) =
        .error (.unboundVariable t.text) :=
      mapM_eq_error_iff.mpr ⟨before, t, after, hsplit,
        fun u hu => exists_change_iff.mpr (hbefore u hu), change_eq_error.mpr ⟨ht, rfl⟩⟩
    rw [houtcome, hfailure]
    rfl

end Response

/-! ## Behaviors that are built -/

section Built

variable {K D σ : Type} [Literal K] [Domain D K] {env : Environment K D σ} {e : Expr K}
  {options : BuildOptions K} {b : Behavior K D σ}

/--
The targets are those asked for, each once. At every moment of a session, small signals are
answered by the Jacobian, which depends on the setting alone.
-/
structure AppliesJacobian (env : Environment K D σ) (e : Expr K) (options : BuildOptions K)
    (b : Behavior K D σ) : Prop where
  targets : Expr.DerivesTargets (prepare env options).functions env.bindings.comparison e
    (targetsOf env.bindings.comparison e options) b.expressions
  responds : ∃ slopes : Setting D → List D, ∀ b', b.Reached b' → b'.targets = b.targets ∧
    ∀ excitation setting host, b'.Responds (slopes setting) excitation setting host

theorem appliesJacobian_of_build (hD : Evaluator.NativeSteady D)
    (hcompare : Scalar.ComparesOrdered D) (h : build env e options = .ok b)
    (hpure : (prepare env options).PureFor e)
    (hslopes : ∀ entry ∈ b.expressions.entries, (prepare env options).PureFor entry.2) :
    AppliesJacobian env e options b := by
  obtain ⟨-, hvalue, hexpressions, hderivatives⟩ := build_eq_ok h
  obtain ⟨-, hindexed, -⟩ := Expr.deriveTargets_eq_ok hexpressions
  obtain ⟨-, -, hkeys, hbuilt⟩ := hindexed.mapM_eq_ok hderivatives
  obtain ⟨value, hsteady, -⟩ := Evaluator.exists_steady_of_build hD hcompare hpure hvalue
  obtain ⟨slopes, hslopes, -⟩ := exists_slopes hD hcompare hslopes hbuilt
  have htargets : b.targets = slopes.map Prod.fst :=
    hkeys.symm.trans (SteadyEntry.targets hslopes)
  have hb : b.SteadyAs value b.derivatives.place? slopes :=
    ⟨hsteady, htargets, fun _ => rfl, hslopes⟩
  refine ⟨Expr.derivesTargets hexpressions, fun setting => slopes.map (·.2 setting),
    fun b' hb' => ?_⟩
  have hsteadyAs := hb'.steadyAs hb
  exact ⟨hsteadyAs.targets.trans htargets.symm, hsteadyAs.responds⟩

end Built

/--
**The response to small signals is the Jacobian applied to them**, for every behavior of real or
complex numbers that is built and whose functions are pure, and at every moment of a session. Each
target counts once, however often it was asked for. The response exists exactly where every target
is bound in the excitation, by the excitation's own comparison of names, and is the sum from left
to right of the Jacobian times the changes; otherwise the first target that is not bound is named.
-/
theorem smallSignal_applies_jacobian {K σ : Type} [RealFunctions K] (hone : (1 : K) - 1 = 0)
    (hzero : (1 : K) - 0 = 1) (e : Expr K) (options : BuildOptions K) :
    (∀ (env : Environment K K σ) (b : Behavior K K σ), build env e options = .ok b →
      (prepare env options).PureFor e →
      (∀ entry ∈ b.expressions.entries, (prepare env options).PureFor entry.2) →
        AppliesJacobian env e options b) ∧
    ∀ (env : Environment K (Complex K) σ) (b : Behavior K (Complex K) σ),
      build env e options = .ok b → (prepare env options).PureFor e →
      (∀ entry ∈ b.expressions.entries, (prepare env options).PureFor entry.2) →
        AppliesJacobian env e options b :=
  ⟨fun _ _ hb => appliesJacobian_of_build (Evaluator.nativeSteady_real hone hzero)
      Scalar.comparesOrdered_real hb,
    fun _ _ hb => appliesJacobian_of_build Evaluator.nativeSteady_complex
      Scalar.comparesOrdered_complex hb⟩

/--
A target that is asked for twice is known by its later spelling, under which an excitation that
looks at case does not have it.
-/
theorem smallSignal_applies_jacobian_respelled :
    ∃ b, build Environment.doubling .doubled .respelled = .ok b ∧
      AppliesJacobian Environment.doubling .doubled .respelled b ∧
      ∀ setting, (b.smallSignal ((Bindings.empty .caseSensitive).bind .sample 1) setting).outcome
        () = (.error (.unboundVariable "v(X)"), ()) := by
  obtain ⟨b, hb⟩ : ∃ b, build Environment.doubling .doubled .respelled = .ok b := ⟨_, rfl⟩
  have hone : (1 : Float) - 1 = 0 := by decide +kernel
  have hzero : (1 : Float) - 0 = 1 := by decide +kernel
  have happlies : AppliesJacobian Environment.doubling .doubled .respelled b :=
    (smallSignal_applies_jacobian hone hzero .doubled .respelled).1 Environment.doubling b hb
      ⟨Environment.doubling_pure, .inr nofun⟩ fun _ _ => ⟨Environment.doubling_pure, .inr nofun⟩
  have htargets : b.targets = [.voltage "X"] :=
    List.map_injective_iff.mpr (Option.some_injective _)
      (happlies.targets.spelling.trans (by decide))
  refine ⟨b, hb, happlies, fun setting => ?_⟩
  obtain ⟨slopes, hresponds⟩ := happlies.responds
  obtain ⟨-, hresponds⟩ := hresponds b .built
  exact (hresponds _ setting ()).unbound [] (.voltage "X") [] htargets nofun (by decide)

end Behavior

end CircuitExpr
