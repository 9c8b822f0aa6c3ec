import Mathlib
import CircuitExpr.Behavior.Basic
import CircuitExpr.Proofs.Behavior.Backends
import CircuitExpr.Proofs.Derivative.Uses
import CircuitExpr.Proofs.Evaluation.Steps
import CircuitExpr.Proofs.Variable.Insertion

/-!
# Behaviors are built exactly of valid expressions

Building a behavior derives an expression, and then makes the expression and all derivatives ready
for a backend. With the function library each of these steps could only fail for something that
the checks of the expression itself have found before: derivatives exist, they read the same
variables, and they are valid where the expression is.

## Main statements

* `Expr.Valid.exists_derive` — a valid expression has valid derivatives
* `Behavior.exists_compile_of_valid` — the expression and its derivatives are made ready
* `Behavior.builds_checked` — a behavior is built exactly where the checks pass
-/

namespace CircuitExpr

open List (Forall₂)

/-! ## Derivatives of valid expressions -/

section Derivatives

variable {K D σ : Type} [Literal K] [Scalar D K] {env : Environment K D σ} {e : Expr K}

omit [Literal K] in
/-- A domain can only lack orderings. -/
theorem Expr.lacks_eq_false {op : BinaryOp} (h : op.isOrdering = true → lacks D op = false) :
    lacks D op = false := by
  by_cases hop : op.isOrdering = true
  · exact h hop
  · simp [lacks, hop]

/--
**A valid expression has a valid derivative.** It reads variables of the expression, calls
registered functions and has no ordering that the expression does not have.
-/
theorem Expr.Valid.exists_derive (hlibrary : env.functions = .library) (h : e.Valid env)
    (comparison : NameComparison) (v : Variable) :
    ∃ d, derive env.functions comparison v e = .ok d ∧ d.Valid env ∧
      d.Uses (· ∈ e.occurrences) (fun op => op.isOrdering = true → op ∈ e.operators)
        fun name count => ∃ f, env.functions.resolve name count = .ok f := by
  have hL : AllowsLibrary
      (fun op => op.isOrdering = true → op ∈ e.operators ∧ lacks D op = false)
      (fun name count => ∃ f, env.functions.resolve name count = .ok f) := by
    constructor
    · intro op hop hordering
      rw [hop] at hordering
      exact nomatch hordering
    · intro f count hcount
      exact ⟨f.definition, by rw [hlibrary]; exact FunctionTable.library_resolve_name hcount⟩
  have hself : e.Uses (fun v => v ∈ e.occurrences ∧ env.bindings.contains v = true)
      (fun op => op.isOrdering = true → op ∈ e.operators ∧ lacks D op = false)
      fun name count => ∃ f, env.functions.resolve name count = .ok f :=
    h.self.mono (fun _ _ hv => hv) (fun _ _ hop _ => hop) fun _ _ h => h
  obtain ⟨d, hd, hdu⟩ := exists_derive_uses hL (fun _ _ h => by rwa [hlibrary] at h) comparison v
    hself
  refine ⟨d, by rw [hlibrary]; exact hd, ?_, ?_⟩
  · exact hdu.mono (fun _ _ hv => hv.2) (fun _ _ hop => lacks_eq_false fun ho => (hop ho).2)
      fun _ _ h => h
  · exact hdu.mono (fun _ _ hv => hv.1) (fun _ _ hop ho => (hop ho).1) fun _ _ h => h

end Derivatives

/-! ## Maps of results -/

namespace VariableMap

variable {A B E : Type}

/-- A map that is transformed with success has the results in the places of the values. -/
theorem Indexed.mapM_eq_ok {f : Variable → A → Except E B} {m : VariableMap A}
    {m' : VariableMap B} (hm : m.Indexed) (h : m.mapM f = .ok m') :
    m'.comparison = m.comparison ∧ m'.Indexed ∧ m'.keys = m.keys ∧
      Forall₂ (fun entry made => f entry.1 entry.2 = .ok made.2) m.entries m'.entries := by
  rw [mapM_eq] at h
  obtain ⟨made, hmade, h⟩ := bind_eq_ok.mp h
  obtain rfl := Except.ok.inj h
  have hsteps : Forall₂ (fun entry made => made.1 = entry.1 ∧ f entry.1 entry.2 = .ok made.2)
      m.entries made := by
    refine (forall₂_of_mapM_eq_ok hmade).imp fun entry made hstep => ?_
    obtain ⟨b, hb, hstep⟩ := bind_eq_ok.mp hstep
    obtain rfl := Except.ok.inj hstep
    exact ⟨rfl, hb⟩
  have hkeys : made.map Prod.fst = m.keys := by
    rw [keys, ← List.forall₂_eq_eq_eq, List.forall₂_map_left_iff, List.forall₂_map_right_iff]
    exact hsteps.flip.imp fun _ _ hstep => hstep.1
  have hentries : (ofList m.comparison made).entries = made := by
    refine entries_ofList_of_nodup ?_
    rw [hkeys]
    exact hm.nodup
  refine ⟨comparison_ofList _ _, indexed_ofList _ _, ?_, ?_⟩
  · rw [keys, hentries, hkeys]
  · rw [hentries]
    exact hsteps.imp fun _ _ hstep => hstep.2

theorem exists_mapM {f : Variable → A → Except E B} {m : VariableMap A}
    (h : ∀ entry ∈ m.entries, ∃ b, f entry.1 entry.2 = .ok b) : ∃ m', m.mapM f = .ok m' := by
  have hsteps : ∀ entry ∈ m.entries, ∃ made, transform f entry = .ok made := by
    intro entry hentry
    obtain ⟨b, hb⟩ := h entry hentry
    exact ⟨(entry.1, b), by rw [transform, hb]; rfl⟩
  obtain ⟨made, hmade, -⟩ := exists_mapM_eq_ok hsteps
  exact ⟨ofList m.comparison made, by rw [mapM_eq, hmade]; rfl⟩

end VariableMap

/-! ## Building -/

namespace Behavior

variable {K D σ : Type} [Literal K] [Domain D K] {env : Environment K D σ} {e : Expr K}

/-- The options add no function and ask for no other comparison of names. -/
structure Usual (env : Environment K D σ) (options : BuildOptions K) : Prop where
  hook : options.hook = none
  comparison : options.comparison = none ∨ options.comparison = some env.bindings.comparison

/--
A behavior is built exactly where the checks pass, and otherwise it is refused for their cause.
Where they pass all derivatives exist. They pass the checks too, read variables of the expression,
call registered functions and have no ordering that the expression does not have.
-/
structure BuildsChecked (env : Environment K D σ) (e : Expr K) (options : BuildOptions K) :
    Prop where
  exists_iff : (∃ b, build env e options = .ok b) ↔ e.validate env = .ok ()
  error : ∀ x, e.validate env = .error x → build env e options = .error (.expression x)
  slope : e.validate env = .ok () → ∀ v, ∃ d,
    Expr.derive env.functions env.bindings.comparison v e = .ok d ∧ d.validate env = .ok () ∧
      d.Uses (· ∈ e.occurrences) (fun op => op.isOrdering = true → op ∈ e.operators)
        fun name count => ∃ f, env.functions.resolve name count = .ok f

theorem exists_deriveTargets (hlibrary : env.functions = .library) (h : e.Valid env)
    (comparison : NameComparison) (targets : List Variable) :
    ∃ m, e.deriveTargets env.functions comparison targets = .ok m ∧
      ∀ entry ∈ m.entries, entry.2.Valid env := by
  have hsteps : ∀ v ∈ targets, ∃ entry, (do
      return (v, ← Expr.derive env.functions comparison v e) :
        Except ExpressionError (Variable × Expr K)) = .ok entry := by
    intro v _
    obtain ⟨d, hd, -⟩ := h.exists_derive hlibrary comparison v
    exact ⟨(v, d), by rw [hd]; rfl⟩
  obtain ⟨derived, hderived, hmem⟩ := exists_mapM_eq_ok hsteps
  refine ⟨VariableMap.ofList comparison derived, by
    rw [Expr.deriveTargets, hderived]; rfl, ?_⟩
  intro entry hentry
  obtain ⟨v, -, hv⟩ := hmem entry (VariableMap.mem_of_mem_ofList hentry)
  obtain ⟨d, hd, hvalid, -⟩ := h.exists_derive hlibrary comparison v
  rw [hd] at hv
  obtain rfl := Except.ok.inj hv
  exact hvalid

/-- **The expression and all its derivatives are made ready.** -/
theorem exists_compile_of_valid (hD : NativeChecked D) (h : e.Valid env)
    (hlibrary : env.functions = .library) (backend : Backend) (targets : List Variable) :
    ∃ b, compile env e backend targets = .ok b := by
  obtain ⟨value, hvalue⟩ := Evaluator.build_of_valid hD h backend
  obtain ⟨expressions, hexpressions, hvalid⟩ :=
    exists_deriveTargets hlibrary h env.bindings.comparison targets
  obtain ⟨derivatives, hderivatives⟩ := VariableMap.exists_mapM
    (f := fun _ d => Evaluator.build env d backend)
    fun entry hentry => Evaluator.build_of_valid hD (hvalid entry hentry) backend
  refine ⟨⟨e, value, expressions, derivatives⟩, ?_⟩
  simp only [compile, bind_eq_ok, pure, Except.pure, Except.ok.injEq]
  exact ⟨value, hvalue, expressions, hexpressions, derivatives, hderivatives, rfl⟩

omit [Literal K] [Domain D K] in
theorem Usual.prepare {options : BuildOptions K} (h : Usual env options) :
    Behavior.prepare env options =
      { env with tolerances := options.tolerances.getD env.tolerances } := by
  rw [Behavior.prepare, h.hook]
  rfl

/-- Nothing but compiling can fail. -/
theorem Usual.build {options : BuildOptions K} (h : Usual env options) (e : Expr K) :
    Behavior.build env e options =
      (Behavior.compile { env with tolerances := options.tolerances.getD env.tolerances } e
        options.backend (targetsOf env.bindings.comparison e options)).mapError .expression := by
  have hcomparison : options.comparison.getD env.bindings.comparison = env.bindings.comparison := by
    rcases h.comparison with hnone | hsome
    · rw [hnone, Option.getD_none]
    · rw [hsome, Option.getD_some]
  rw [Behavior.build, h.prepare]
  exact if_neg (not_not.mpr hcomparison)

theorem buildsChecked_of_nativeChecked (hD : NativeChecked D)
    (hlibrary : env.functions = .library) {options : BuildOptions K} (hoptions : Usual env options)
    (hplain : e.Plain) : BuildsChecked env e options := by
  have herror : ∀ x, e.validate env = .error x →
      build env e options = .error (.expression x) := by
    intro x hx
    rw [← Expr.validate_withTolerances (options.tolerances.getD env.tolerances)] at hx
    rw [hoptions.build, compile, Evaluator.build_of_invalid hD hx]
    rfl
  constructor
  · constructor
    · rintro ⟨b, hb⟩
      cases hx : e.validate env with
      | ok => rfl
      | error x => exact nomatch hb.symm.trans (herror x hx)
    · intro hvalid
      rw [← Expr.validate_withTolerances (options.tolerances.getD env.tolerances),
        Expr.validate_eq_ok_iff hplain] at hvalid
      obtain ⟨b, hb⟩ := exists_compile_of_valid hD hvalid hlibrary options.backend
        (targetsOf env.bindings.comparison e options)
      exact ⟨b, by rw [hoptions.build, hb]; rfl⟩
  · exact herror
  · intro hvalid v
    obtain ⟨d, hd, hdvalid, hduses⟩ :=
      ((Expr.validate_eq_ok_iff hplain).mp hvalid).exists_derive hlibrary env.bindings.comparison v
    exact ⟨d, hd, (Expr.validate_eq_ok_iff hdvalid.plain).mpr hdvalid, hduses⟩

/--
**A behavior of real or complex numbers is built exactly where the checks pass**, for every
backend, all tolerances and all targets. Only the library is registered, and nothing is left to
the host.
-/
theorem builds_checked {K σ : Type} [RealFunctions K] {e : Expr K} (hplain : e.Plain)
    (options : BuildOptions K) :
    (∀ env : Environment K K σ, env.functions = .library → Usual env options →
        BuildsChecked env e options) ∧
      ∀ env : Environment K (Complex K) σ, env.functions = .library → Usual env options →
        BuildsChecked env e options :=
  ⟨fun _ hlibrary hoptions =>
      buildsChecked_of_nativeChecked nativeChecked_real hlibrary hoptions hplain,
    fun _ hlibrary hoptions =>
      buildsChecked_of_nativeChecked nativeChecked_complex hlibrary hoptions hplain⟩

/-- A conditional on an ordering, which complex numbers do not have. -/
theorem builds_checked_ordering :
    let e : Expr Float := .cond (.binary .lt (.var .sample) (.const 2))
      (.call "max" [.var .sample, .const 1]) (.const 4)
    let bindings := (Bindings.empty .caseSensitive).bind .sample 0
    (∃ b : Behavior Float Float Unit, build (.ofBindings bindings) e .default = .ok b) ∧
      build (.ofBindings bindings : Environment Float (Complex Float) Unit) e .default =
        .error (.expression (.unsupportedOperator .lt "complex")) := by
  intro e bindings
  have hbound : bindings.contains .sample = true := by decide
  have hvalid : e.Valid (.ofBindings bindings : Environment Float Float Unit) := by
    refine .cond (.binary rfl (.var hbound) (.const 2)) (.call ?_ ?_) (.const 4)
    · exact ⟨_, FunctionTable.library_resolve_name (f := .max) rfl⟩
    · exact List.forall_mem_cons.mpr ⟨.var hbound, List.forall_mem_singleton.mpr (.const 1)⟩
  obtain ⟨hreal, hcomplex⟩ := builds_checked (σ := Unit) hvalid.plain .default
  constructor
  · exact (hreal _ rfl ⟨rfl, .inl rfl⟩).exists_iff.mpr
      ((Expr.validate_eq_ok_iff hvalid.plain).mpr hvalid)
  · exact (hcomplex _ rfl ⟨rfl, .inl rfl⟩).error _ rfl

end Behavior

end CircuitExpr
