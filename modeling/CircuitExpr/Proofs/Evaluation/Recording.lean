import Mathlib
import CircuitExpr.Proofs.Evaluation.Related

/-!
# Recording calls

Which functions are called, with which arguments and in which order, is not part of what an
evaluation ends with. `Environment.recorded` is an environment that notes it down: the state of
its host is that of the given environment together with the calls so far.

## Main statements

* `evaluate_recorded` — noting the calls down changes nothing else
-/

namespace CircuitExpr

open List (Forall₂)

/-- A call of a registered function. -/
structure Call (D : Type) where
  function : Native
  arguments : List D

section Recorded

variable {K D σ : Type}

/-- The same functions, which note down that they are called. -/
def recordCalls (natives : Native → List D → StateM σ D) :
    Native → List D → StateM (σ × List (Call D)) D :=
  fun f arguments (host, calls) =>
    let (value, host) := (natives f arguments).run host
    (value, (host, calls ++ [⟨f, arguments⟩]))

/-- A computation beside which a second state is carried along. -/
def Run.beside {τ α : Type} (x : Run σ α) : Run (σ × τ) α :=
  ExceptT.mk fun (host, other) =>
    let (result, host) := x.outcome host
    (result, (host, other))

/-- The environment that notes down the calls. -/
def Environment.recorded (env : Environment K D σ) : Environment K D (σ × List (Call D)) where
  bindings := env.bindings
  functions := env.functions
  tolerances := env.tolerances
  natives := recordCalls env.natives
  extension := env.extension.map fun handler name arguments => (handler name arguments).beside

theorem Environment.recorded_extension (env : Environment K D σ) :
    env.recorded.extension =
      env.extension.map fun handler name arguments => (handler name arguments).beside := rfl

end Recorded

namespace Expr

open Run

variable {K D σ : Type} [Literal K] [Scalar D K] {env : Environment K D σ} {setting : Setting D}

/-- The state beside the calls is the one without them. -/
abbrev Forgets (s : σ × List (Call D)) (t : σ) : Prop := s.1 = t

theorem evaluateEach_recorded_of {es : List (Expr K)}
    (h : ∀ e ∈ es, Related Eq Forgets (evaluate env.recorded setting e) (evaluate env setting e)) :
    Related (Forall₂ Eq) Forgets (evaluateEach env.recorded setting es)
      (evaluateEach env setting es) := by
  have hmap := evaluateEach_map_related (f := id) h
  rwa [List.map_id] at hmap

/-- An evaluation that notes down its calls has the value and the host of the plain one. -/
theorem evaluate_recorded (env : Environment K D σ) (setting : Setting D) (e : Expr K) :
    Related Eq Forgets (evaluate env.recorded setting e) (evaluate env setting e) := by
  induction e using Expr.induction with
  | const value => exact evaluate_const_related (fun _ => rfl) value
  | var v =>
    refine evaluate_var_related (fun _ => rfl) ?_ v
    rfl
  | unary op operand ih =>
    refine evaluate_unary_related ?_ ih
    rintro x _ rfl
    rfl
  | binary op left right ihl ihr =>
    refine evaluate_binary_related rfl ?_ ihl ihr
    rintro x _ y _ rfl rfl
    exact .refl (fun _ => rfl) _
  | cond condition whenTrue whenFalse ihc iht ihf =>
    exact evaluate_cond_related (fun x y h => h ▸ rfl) ihc iht ihf
  | call name arguments ih =>
    refine evaluate_call_related rfl rfl ?_ (evaluateEach_recorded_of ih)
    -- the arguments are the same, so the one call does what the other does
    rintro d - xs ys - hxs s _ rfl
    obtain rfl : xs = ys := by rwa [List.forall₂_eq_eq_eq] at hxs
    exact ⟨rfl, rfl⟩
  | ext name arguments ih =>
    -- a node of the host is evaluated beside the calls, which it leaves alone
    simp only [evaluate]
    rw [Environment.recorded_extension]
    cases env.extension with
    | none => exact .ofExcept (.error _ _)
    | some handler =>
      refine (evaluateEach_recorded_of ih).bind ?_
      rintro xs ys hxs s _ rfl
      obtain rfl : xs = ys := by rwa [List.forall₂_eq_eq_eq] at hxs
      exact ⟨.refl (fun _ => rfl) _, rfl⟩

theorem evaluateEach_recorded (env : Environment K D σ) (setting : Setting D)
    (es : List (Expr K)) :
    Related (Forall₂ Eq) Forgets (evaluateEach env.recorded setting es)
      (evaluateEach env setting es) :=
  evaluateEach_recorded_of fun e _ => evaluate_recorded env setting e

/-- The value and the host of an evaluation that notes down its calls. -/
theorem evaluate_of_recorded {e : Expr K} {host host' : σ} {calls calls' : List (Call D)}
    {value : D}
    (h : (evaluate env.recorded setting e).outcome (host, calls) = (.ok value, (host', calls'))) :
    (evaluate env setting e).outcome host = (.ok value, host') := by
  obtain ⟨hagree, hhost⟩ := evaluate_recorded env setting e (host, calls) host rfl
  rcases hplain : (evaluate env setting e).outcome host with ⟨result, host''⟩
  rw [h, hplain] at hagree hhost
  obtain rfl : host' = host'' := hhost
  cases hagree with
  | ok hvalue => rw [hvalue]

end Expr

/-! ## Records of similar calls -/

section Similar

variable {D σ : Type} {V : D → D → Prop} {S : σ → σ → Prop}

theorem forall₂_equivalence {α : Type} {r : α → α → Prop} (hr : Equivalence r) :
    Equivalence (Forall₂ r) where
  refl xs := List.forall₂_same.mpr fun x _ => hr.refl x
  symm h := h.flip.imp fun _ _ h => hr.symm h
  trans {xs ys zs} h h' := by
    induction h generalizing zs with
    | nil => exact h'
    | cons hxy _ ih =>
      cases h' with
      | cons hyz h' => exact .cons (hr.trans hxy hyz) (ih h')

/-- Calls of the same function with similar arguments. -/
def Call.Similar (V : D → D → Prop) (c c' : Call D) : Prop :=
  c.function = c'.function ∧ Forall₂ V c.arguments c'.arguments

theorem Call.similar_equivalence (hV : Equivalence V) : Equivalence (Call.Similar V) where
  refl _ := ⟨rfl, (forall₂_equivalence hV).refl _⟩
  symm h := ⟨h.1.symm, (forall₂_equivalence hV).symm h.2⟩
  trans h h' := ⟨h.1.trans h'.1, (forall₂_equivalence hV).trans h.2 h'.2⟩

/-- Related states of a host, with similar calls noted down. -/
def SimilarRecords (V : D → D → Prop) (S : σ → σ → Prop) (s t : σ × List (Call D)) : Prop :=
  S s.1 t.1 ∧ Forall₂ (Call.Similar V) s.2 t.2

theorem similarRecords_equivalence (hV : Equivalence V) (hS : Equivalence S) :
    Equivalence (SimilarRecords V S) :=
  have hcalls := forall₂_equivalence (Call.similar_equivalence hV)
  { refl := fun _ => ⟨hS.refl _, hcalls.refl _⟩
    symm := fun h => ⟨hS.symm h.1, hcalls.symm h.2⟩
    trans := fun h h' => ⟨hS.trans h.1 h'.1, hcalls.trans h.2 h'.2⟩ }

/-- A function that respects similar numbers does so while its calls are noted down. -/
theorem Native.Respects.recordCalls {natives : Native → List D → StateM σ D} {f : Native}
    {count : Nat} (h : Native.Respects V S count (natives f) (natives f)) :
    Native.Respects V (SimilarRecords V S) count (recordCalls natives f)
      (recordCalls natives f) := by
  intro xs ys hcount hxs s t hst
  obtain ⟨hvalue, hstate⟩ := h xs ys hcount hxs s.1 t.1 hst.1
  exact ⟨hvalue, hstate, List.rel_append hst.2 (.cons ⟨rfl, hxs⟩ .nil)⟩

end Similar

end CircuitExpr
