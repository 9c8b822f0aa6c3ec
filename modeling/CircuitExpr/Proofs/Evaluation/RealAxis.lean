import Mathlib
import CircuitExpr.Proofs.Evaluation.Validity
import CircuitExpr.Proofs.Function.Library
import CircuitExpr.Proofs.Numeric.RealAxis

/-!
# Complex evaluation extends real evaluation

An expression without orderings and extension nodes is evaluated in the real domain, and once more
in the complex domain, where every source holds the same real number and every function takes real
numbers to the same real numbers. In exact arithmetic the second evaluation ends with the value of
the first, or with its error, and takes the same decisions on its way.

Remainders and powers have to be ordinary in the real evaluation, which is seen from what it notes
down. Nothing is asked of quotients.

## Main statements

* `Run.Lifts` — one computation takes the steps of another on the real axis
* `Environment.Extends`, `Environment.CallExtends` — the environments belong together
* `Expr.evaluateNoting_lifts` — every evaluation is lifted, form by form
* `Expr.evaluate_extends` — **complex evaluation extends real evaluation**
-/

namespace CircuitExpr

open CircuitExpr.Complex (ofReal)

variable {K F σ τ : Type} [RealFunctions K]

/-! ## Computations on the real axis -/

/--
From related states of the hosts the second computation ends as the first does, with the value on
the real axis, and has noted down the same, if all that the first notes down is ordinary. Nothing
that was noted down before is lost.
-/
structure Run.Lifts {α β : Type} (g : α → β) (R : σ → τ → Prop)
    (x : Run (σ × List (Decision K)) α) (y : Run (τ × List (Decision (Complex K))) β) : Prop where
  grows : ∀ s noted, noted <+: (x.outcome (s, noted)).2.2
  lifts : ∀ s t noted, R s t → (∀ d ∈ (x.outcome (s, noted)).2.2, d.Ordinary) →
    ∃ t', R (x.outcome (s, noted)).2.1 t' ∧ y.outcome (t, noted.map (Decision.map ofReal)) =
      ((x.outcome (s, noted)).1.map g,
        (t', (x.outcome (s, noted)).2.2.map (Decision.map ofReal)))

namespace Run

variable {α β γ δ : Type} {f : α → β} {g : γ → δ} {R : σ → τ → Prop}

theorem Lifts.pure {a : α} {b : β} (h : f a = b) :
    Lifts (K := K) f R (Pure.pure a : Run (σ × List (Decision K)) α) (Pure.pure b) where
  grows _ _ := List.prefix_rfl
  lifts _ t _ hst _ := ⟨t, hst, h ▸ rfl⟩

theorem Lifts.ofExcept {x : Except ExpressionError α} {y : Except ExpressionError β}
    (h : y = x.map f) :
    Lifts (K := K) f R (Run.ofExcept x : Run (σ × List (Decision K)) α) (Run.ofExcept y) where
  grows _ _ := List.prefix_rfl
  lifts _ t _ hst _ := ⟨t, hst, h ▸ rfl⟩

theorem Lifts.bind {x : Run (σ × List (Decision K)) α}
    {y : Run (τ × List (Decision (Complex K))) β} {k : α → Run (σ × List (Decision K)) γ}
    {l : β → Run (τ × List (Decision (Complex K))) δ} (h : Lifts f R x y)
    (hk : ∀ a, x.Meets a → Lifts g R (k a) (l (f a))) : Lifts g R (x >>= k) (y >>= l) where
  grows s noted := by
    have hfirst := h.grows s noted
    rcases hx : x.outcome (s, noted) with ⟨r, s', noted'⟩
    rw [hx] at hfirst
    cases r with
    | ok a =>
      rw [outcome_bind_ok hx]
      exact hfirst.trans ((hk a ⟨_, _, hx⟩).grows s' noted')
    | error e =>
      rw [outcome_bind_error hx]
      exact hfirst
  lifts s t noted hst hordinary := by
    have hfirst := h.lifts s t noted hst
    rcases hx : x.outcome (s, noted) with ⟨r, s', noted'⟩
    rw [hx] at hfirst
    cases r with
    | ok a =>
      rw [outcome_bind_ok hx] at hordinary ⊢
      -- what was noted down first is still there in the end
      have hgrows := (hk a ⟨_, _, hx⟩).grows s' noted'
      obtain ⟨t', hst', hy⟩ := hfirst fun d hd => hordinary d (hgrows.mem hd)
      rw [outcome_bind_ok hy]
      exact (hk a ⟨_, _, hx⟩).lifts s' t' noted' hst' hordinary
    | error e =>
      rw [outcome_bind_error hx] at hordinary ⊢
      obtain ⟨t', hst', hy⟩ := hfirst hordinary
      rw [outcome_bind_error hy]
      exact ⟨t', hst', rfl⟩

/-- What is noted down first may be relied on afterwards. -/
theorem Lifts.note_bind {x : Run (σ × List (Decision K)) α}
    {y : Run (τ × List (Decision (Complex K))) β} {decisions : List (Decision K)}
    {decisions' : List (Decision (Complex K))}
    (hgrows : ∀ s noted, noted <+: (x.outcome (s, noted)).2.2)
    (h : (∀ d ∈ decisions, d.Ordinary) →
      decisions' = decisions.map (Decision.map ofReal) ∧ Lifts f R x y) :
    Lifts f R (note decisions >>= fun _ => x) (note decisions' >>= fun _ => y) where
  grows s noted := by
    rw [outcome_bind_ok (outcome_note decisions noted s)]
    exact (List.prefix_append _ _).trans (hgrows s _)
  lifts s t noted hst hordinary := by
    rw [outcome_bind_ok (outcome_note decisions noted s)] at hordinary ⊢
    rw [outcome_bind_ok (outcome_note decisions' _ t)]
    have hnoted : ∀ d ∈ decisions, d.Ordinary := fun d hd =>
      hordinary d ((hgrows s _).mem (List.mem_append_right _ hd))
    obtain ⟨rfl, hlifts⟩ := h hnoted
    rw [← List.map_append]
    exact hlifts.lifts s t _ hst hordinary

theorem Lifts.beside {x : Run σ α} {y : Run τ β}
    (h : ∀ s t, R s t → ∃ t', R (x.outcome s).2 t' ∧ y.outcome t = ((x.outcome s).1.map f, t')) :
    Lifts (K := K) f R x.beside y.beside where
  grows _ _ := List.prefix_rfl
  lifts s t noted hst _ := by
    obtain ⟨t', hst', hy⟩ := h s t hst
    refine ⟨t', hst', ?_⟩
    rw [outcome_beside, outcome_beside, hy]

end Run

/-! ## Environments that belong together -/

/--
Two environments bind the same variables, know functions of the same names and arities, and have
the same tolerances. Every source of the second holds the real number that its counterpart holds.
-/
structure Environment.Extends (setting : Setting K) (setting' : Setting (Complex K))
    (env : Environment K K σ) (env' : Environment K (Complex K) τ) : Prop where
  bindings : ∀ v, Option.Rel (fun source source' => setting' source' = ofReal (setting source))
    (env.bindings.get? v) (env'.bindings.get? v)
  functions : ∀ name, Option.Rel (fun d d' => d.arity = d'.arity)
    (env.functions.get? name) (env'.functions.get? name)
  tolerances : env.tolerances = env'.tolerances

/-- What a call stands for in the second environment extends what it stands for in the first. -/
def Environment.CallExtends (R : σ → τ → Prop) (env : Environment K K σ)
    (env' : Environment K (Complex K) τ) (name : String) (count : Nat) : Prop :=
  ∀ d d', env.functions.resolve name count = .ok d → env'.functions.resolve name count = .ok d' →
    ∀ values, values.length = count → ∀ s t, R s t →
      ∃ t', R ((env.natives d.native values).run s).2 t' ∧
        (env'.natives d'.native (values.map ofReal)).run t =
          (ofReal ((env.natives d.native values).run s).1, t')

variable {setting : Setting K} {setting' : Setting (Complex K)} {env : Environment K K σ}
  {env' : Environment K (Complex K) τ} {R : σ → τ → Prop}

/-- A call is refused in both environments, for the same cause, or in none. -/
theorem Environment.Extends.resolve (henv : env.Extends setting setting' env') (name : String)
    (count : Nat) :
    (∃ d d', env.functions.resolve name count = .ok d ∧
        env'.functions.resolve name count = .ok d') ∨
      ∃ e, env.functions.resolve name count = .error e ∧
        env'.functions.resolve name count = .error e := by
  have hfunctions := henv.functions name
  unfold FunctionTable.resolve
  rcases hd : env.functions.get? name with _ | d <;>
    rcases hd' : env'.functions.get? name with _ | d' <;> rw [hd, hd'] at hfunctions
  · exact .inr ⟨_, rfl, rfl⟩
  · cases hfunctions
  · cases hfunctions
  · cases hfunctions with
    | some harity =>
      simp only [← harity]
      split
      · exact .inl ⟨d, d', rfl, rfl⟩
      · exact .inr ⟨_, rfl, rfl⟩

/-! ## Expressions, form by form -/

namespace Expr

open Run

variable [Field F] [LinearOrder F] [IsStrictOrderedRing F] {value : K → F} {truncate : F → F}

omit [LinearOrder F] [IsStrictOrderedRing F] [Field F] in
theorem evaluateNotingEach_lifts {es : List (Expr K)}
    (h : ∀ e ∈ es, Lifts ofReal R (evaluateNoting env setting e)
      (evaluateNoting env' setting' e)) :
    Lifts (List.map ofReal) R (evaluateNotingEach env setting es)
      (evaluateNotingEach env' setting' es) := by
  induction es with
  | nil =>
    rw [evaluateNotingEach, evaluateNotingEach]
    exact .pure rfl
  | cons e rest ih =>
    obtain ⟨he, hrest⟩ := List.forall_mem_cons.mp h
    rw [evaluateNotingEach, evaluateNotingEach]
    exact he.bind fun x _ => (ih hrest).bind fun xs _ => .pure rfl

/-- There are as many values as expressions. -/
theorem evaluateNotingEach_length {es : List (Expr K)} {values : List K}
    (h : (evaluateNotingEach env setting es).Meets values) : values.length = es.length := by
  obtain ⟨⟨host, noted⟩, _, hvalues⟩ := h
  have hmatches : Matches Eq Unnoted (evaluateNotingEach env setting es)
      (evaluateEach env setting es) :=
    evaluateNotingEach_matches fun e _ => evaluateNoting_matches env setting e
  have hend := (hmatches (host, noted) host rfl).1.eq
  rw [hvalues] at hend
  exact evaluateEach_length ⟨host, _, Prod.ext hend.symm rfl⟩

/-- **Every evaluation is lifted to the complex domain**, decision by decision. -/
theorem evaluateNoting_lifts (hexact : RealFunctions.Exact value truncate)
    (henv : env.Extends setting setting' env') {e : Expr K}
    (he : e.Uses (fun _ => True) (fun op => op.isOrdering = false) (env.CallExtends R env')) :
    Lifts ofReal R (evaluateNoting env setting e) (evaluateNoting env' setting' e) := by
  induction e using Expr.induction with
  | const value =>
    rw [evaluateNoting, evaluateNoting]
    exact .pure rfl
  | var v =>
    rw [evaluateNoting, evaluateNoting]
    have hbindings := henv.bindings v
    revert hbindings
    rcases env.bindings.get? v with _ | source <;> rcases env'.bindings.get? v with _ | source' <;>
      intro hbindings
    · exact .ofExcept rfl
    · cases hbindings
    · cases hbindings
    · cases hbindings with
      | some hsource => exact .pure hsource.symm
  | unary op operand ih =>
    cases he with
    | unary _ hoperand =>
      rw [evaluateNoting, evaluateNoting]
      exact (ih hoperand).bind fun x _ => .pure (op.apply_ofReal hexact x).symm
  | binary op left right ihl ihr =>
    cases he with
    | binary hop hleft hright =>
      rw [evaluateNoting, evaluateNoting, ← henv.tolerances]
      refine (ihl hleft).bind fun x _ => (ihr hright).bind fun y _ =>
        .note_bind (fun _ _ => List.prefix_rfl) fun hordinary => ?_
      obtain ⟨hvalue, hdecisions⟩ := BinaryOp.apply_ofReal hexact hop _ x y hordinary
      exact ⟨hdecisions, .ofExcept hvalue⟩
  | cond condition whenTrue whenFalse ihc iht ihf =>
    cases he with
    | cond hcondition htrue hfalse =>
      rw [evaluateNoting, evaluateNoting]
      refine (ihc hcondition).bind fun x _ => ?_
      -- the condition is looked at in its real part, and this is the same number
      have hbranch : Lifts ofReal R
          (if Scalar.isTrue x then evaluateNoting env setting whenTrue
            else evaluateNoting env setting whenFalse)
          (if Scalar.isTrue (ofReal x) then evaluateNoting env' setting' whenTrue
            else evaluateNoting env' setting' whenFalse) := by
        have hholds : (Scalar.isTrue (ofReal x) : Bool) = Scalar.isTrue x := rfl
        rw [hholds]
        split
        · exact iht htrue
        · exact ihf hfalse
      exact .note_bind hbranch.grows fun _ => ⟨rfl, hbranch⟩
  | call name arguments ih =>
    cases he with
    | call hname harguments =>
      rw [evaluateNoting, evaluateNoting]
      have hvalues := evaluateNotingEach_lifts fun a ha => ih a ha (harguments a ha)
      rcases henv.resolve name arguments.length with ⟨d, d', hd, hd'⟩ | ⟨x, hd, hd'⟩
      · rw [hd, hd']
        refine hvalues.bind fun values hmeets => .beside fun s t hst => ?_
        obtain ⟨t', hst', hcall⟩ :=
          hname d d' hd hd' values (evaluateNotingEach_length hmeets) s t hst
        refine ⟨t', hst', ?_⟩
        rw [outcome_ofCall, outcome_ofCall, hcall]
        rfl
      · rw [hd, hd']
        exact .ofExcept (x := .error x) rfl
  | ext name arguments ih => cases he

/--
**Complex evaluation extends real evaluation.** In exact arithmetic, and if remainders and powers
are ordinary, an expression without orderings and extension nodes has in the complex domain the
value that it has in the real domain, or fails for the same cause. The hosts end in states that
belong together, and all branches taken and equalities found are the same.
-/
theorem evaluate_extends (hexact : RealFunctions.Exact value truncate)
    (henv : env.Extends setting setting' env') {e : Expr K}
    (he : e.Uses (fun _ => True) (fun op => op.isOrdering = false) (env.CallExtends R env'))
    {s : σ} {t : τ} (hst : R s t) (hordinary : ∀ d ∈ e.decisions env setting s, d.Ordinary) :
    ((e.evaluate env' setting').outcome t).1 =
        ((e.evaluate env setting).outcome s).1.map ofReal ∧
      R ((e.evaluate env setting).outcome s).2 ((e.evaluate env' setting').outcome t).2 ∧
        e.decisions env' setting' t =
          (e.decisions env setting s).map (Decision.map ofReal) := by
  obtain ⟨hend, hhost⟩ := evaluateNoting_matches env setting e (s, []) s rfl
  obtain ⟨hend', hhost'⟩ := evaluateNoting_matches env' setting' e (t, []) t rfl
  obtain ⟨t', hst', hlifted⟩ :=
    (evaluateNoting_lifts hexact henv he).lifts s t [] hst hordinary
  rw [List.map_nil] at hlifted
  rw [← hend.eq, ← hend'.eq, ← hhost, ← hhost', decisions, decisions, hlifted]
  exact ⟨rfl, hst', rfl⟩

end Expr

/-! ## Over the real numbers -/

/-- One variable and the library, over the real numbers. -/
noncomputable def Environment.ofReals {D : Type} [Scalar D ℝ] : Environment ℝ D Unit :=
  .ofBindings ((Bindings.empty .caseSensitive).bind .sample 0)

/-- A power whose exponent is a remainder, where the variable is the base. -/
def Expr.raised (base divisor : ℝ) : Expr ℝ :=
  .cond (.binary .eq (.var .sample) (.const base))
    (.binary .pow (.const base) (.binary .mod (.call "abs" [.var .sample]) (.const divisor)))
    (.var .sample)

theorem Environment.ofReals_extends (x : ℝ) :
    Environment.Extends (fun _ => x) (fun _ => ofReal x) ofReals ofReals where
  bindings v := by
    show Option.Rel _ ((ofReals (D := ℝ)).bindings.get? v) ((ofReals (D := ℝ)).bindings.get? v)
    cases (ofReals (D := ℝ)).bindings.get? v with
    | none => exact .none
    | some source => exact .some rfl
  functions name := by
    show Option.Rel _ (FunctionTable.library.get? name) (FunctionTable.library.get? name)
    cases (FunctionTable.library : FunctionTable ℝ).get? name with
    | none => exact .none
    | some d => exact .some rfl
  tolerances := rfl

/-- The size of a real number is that of the complex number. -/
theorem Environment.ofReals_callExtends :
    Environment.CallExtends Eq ofReals (ofReals (D := Complex ℝ)) "abs" 1 := by
  intro d d' hd hd' values hlength s t hst
  have hfound : (FunctionTable.library : FunctionTable ℝ).resolve LibraryFunction.abs.name 1 =
      .ok LibraryFunction.abs.definition := FunctionTable.library_resolve_name rfl
  obtain rfl : _ = d := Except.ok.inj (hfound.symm.trans hd)
  obtain rfl : _ = d' := Except.ok.inj (hfound.symm.trans hd')
  obtain ⟨x, rfl⟩ := List.length_eq_one_iff.mp hlength
  refine ⟨t, hst, ?_⟩
  show (Complex.elementary .abs (ofReal x), t) = (ofReal |x|, t)
  exact congrArg (fun y => (ofReal y, t)) (exact_real.ofReal_norm x)

/-- The divisor three is not zero, and the base two is above zero. -/
theorem Expr.raised_ordinary (x : ℝ) :
    ∀ d ∈ (raised 2 3).decisions Environment.ofReals (fun _ => x) (), d.Ordinary := by
  have hcondition : ((Expr.binary .eq (.var .sample) (.const 2)).evaluateNoting
      Environment.ofReals fun _ => x).outcome ((), []) =
        (.ok (Scalar.ofBool (Scalar.fuzzyEquals x (2 : ℝ) .default)),
          ((), [.equality (Scalar.fuzzyEquals x (2 : ℝ) .default)])) := rfl
  have hpower : ∀ noted, ((Expr.binary .pow (.const 2)
      (.binary .mod (.call "abs" [.var .sample]) (.const 3))).evaluateNoting
        Environment.ofReals fun _ => x).outcome ((), noted) =
      (.ok (Scalar.power 2 (Scalar.modulo |x| 3)),
        ((), noted ++ [.operands .mod |x| 3] ++ [.operands .pow 2 (Scalar.modulo |x| 3)])) :=
    fun _ => rfl
  have hvariable : ∀ noted, ((Expr.var .sample).evaluateNoting Environment.ofReals
      fun _ => x).outcome ((), noted) = (.ok x, ((), noted)) := fun _ => rfl
  have hthree : (Decision.operands .mod |x| (3 : ℝ)).Ordinary := by
    show (3 : ℝ) ≠ 0
    norm_num
  have htwo : (Decision.operands .pow (2 : ℝ) (Scalar.modulo |x| (3 : ℝ))).Ordinary :=
    fun _ _ _ => pow_ofReal_of_pos (abs_pos.mpr two_ne_zero) _
  rw [decisions, raised, evaluateNoting, Run.outcome_bind_ok hcondition,
    Run.outcome_bind_ok (Run.outcome_note _ _ _)]
  split
  · rw [hpower]
    simp only [List.forall_mem_append, List.forall_mem_singleton]
    exact ⟨⟨⟨trivial, trivial⟩, hthree⟩, htwo⟩
  · rw [hvariable]
    simp only [List.forall_mem_append, List.forall_mem_singleton]
    exact ⟨trivial, trivial⟩

/-- At the number two both domains take the same branch, to the same power. -/
theorem Expr.raised_extends :
    (((raised 2 3).evaluate Environment.ofReals fun _ => ofReal 2).outcome ()).1 =
        (((raised 2 3).evaluate Environment.ofReals fun _ => (2 : ℝ)).outcome ()).1.map ofReal ∧
      (raised 2 3).decisions Environment.ofReals (fun _ => ofReal 2) () =
        ((raised 2 3).decisions Environment.ofReals (fun _ => (2 : ℝ)) ()).map
          (Decision.map ofReal) := by
  have huses : (raised 2 3).Uses (fun _ => True) (fun op => op.isOrdering = false)
      (Environment.CallExtends Eq Environment.ofReals (Environment.ofReals (D := Complex ℝ))) :=
    .cond (.binary rfl (.var trivial) (.const 2))
      (.binary rfl (.const 2) (.binary rfl (.call Environment.ofReals_callExtends
        (List.forall_mem_singleton.mpr (.var trivial))) (.const 3)))
      (.var trivial)
  obtain ⟨hend, -, hdecisions⟩ :=
    evaluate_extends exact_real (Environment.ofReals_extends 2) huses rfl (raised_ordinary 2)
  exact ⟨hend, hdecisions⟩

end CircuitExpr
