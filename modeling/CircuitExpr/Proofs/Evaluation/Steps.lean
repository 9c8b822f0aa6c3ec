import Mathlib
import CircuitExpr.Proofs.Evaluation.Outcome

/-!
# Steps taken one after another

A list of steps, each of which may fail, is taken in order up to the first failure. It succeeds
with the results of all its steps, or fails as the first step that fails.

## Main statements

* `mapM_eq_ok_iff`, `mapM_succeeds_iff` — when steps succeed together, and with which results
* `mapM_eq_error_iff` — the failure of a list of steps is that of the first step that fails
-/

namespace CircuitExpr

open List (Forall₂)

/-! ## Success -/

/-- If every step succeeds, so do all of them. -/
theorem exists_mapM_eq_ok {ε α β : Type} {f : α → Except ε β} {xs : List α}
    (h : ∀ x ∈ xs, ∃ y, f x = .ok y) :
    ∃ ys, xs.mapM f = .ok ys ∧ ∀ y ∈ ys, ∃ x ∈ xs, f x = .ok y := by
  induction xs with
  | nil => exact ⟨[], rfl, nofun⟩
  | cons x rest ih =>
    obtain ⟨⟨y, hy⟩, hrest⟩ := List.forall_mem_cons.mp h
    obtain ⟨ys, hys, hmem⟩ := ih hrest
    refine ⟨y :: ys, by rw [List.mapM_cons, hy, hys]; rfl, List.forall_mem_cons.mpr ⟨?_, ?_⟩⟩
    · exact ⟨x, by simp, hy⟩
    · intro z hz
      obtain ⟨w, hw, hwz⟩ := hmem z hz
      exact ⟨w, by simp [hw], hwz⟩

/-- What succeeds as a whole has succeeded step by step. -/
theorem forall₂_of_mapM_eq_ok {ε α β : Type} {f : α → Except ε β} {xs : List α} {ys : List β}
    (h : xs.mapM f = .ok ys) : Forall₂ (fun x y => f x = .ok y) xs ys := by
  induction xs generalizing ys with
  | nil =>
    rw [List.mapM_nil] at h
    obtain rfl := Except.ok.inj h
    exact .nil
  | cons x rest ih =>
    rw [List.mapM_cons, bind_eq_ok] at h
    obtain ⟨y, hy, h⟩ := h
    obtain ⟨ys, hys, h⟩ := bind_eq_ok.mp h
    obtain rfl := Except.ok.inj h
    exact .cons hy (ih hys)

/-- Steps succeed with these results where each of them does. -/
theorem mapM_eq_ok_iff {ε α β : Type} {f : α → Except ε β} {xs : List α} {ys : List β} :
    xs.mapM f = .ok ys ↔ Forall₂ (fun x y => f x = .ok y) xs ys := by
  refine ⟨forall₂_of_mapM_eq_ok, fun h => ?_⟩
  induction h with
  | nil => rfl
  | cons hfirst _ ih =>
    rw [List.mapM_cons, hfirst, ih]
    rfl

/-! ## The first failure -/

/-- This is how the first step in order fails that does fail. -/
def FailsFirst {ε α β : Type} (f : α → Except ε β) (xs : List α) (failure : ε) : Prop :=
  ∃ before x after, xs = before ++ x :: after ∧ (∀ y ∈ before, ∃ z, f y = .ok z) ∧
    f x = .error failure

section Failure

variable {ε α β : Type} {f : α → Except ε β} {xs : List α} {failure : ε}

/-- What cannot fail leaves the failure as it is. -/
theorem bind_pure_eq_error {x : Except ε α} {g : α → β} :
    (x >>= fun a => pure (g a)) = .error failure ↔ x = .error failure := by
  cases x with
  | error y => exact ⟨fun h => congrArg _ (Except.error.inj h),
      fun h => congrArg _ (Except.error.inj h)⟩
  | ok a => exact ⟨nofun, nofun⟩

theorem failsFirst_cons_of_ok {x : α} {z : β} (h : f x = .ok z) :
    FailsFirst f (x :: xs) failure ↔ FailsFirst f xs failure := by
  constructor
  · rintro ⟨before, y, after, heq, hbefore, hy⟩
    cases before with
    | nil =>
      obtain ⟨rfl, -⟩ := List.cons.inj heq
      exact nomatch h.symm.trans hy
    | cons b before =>
      exact ⟨before, y, after, (List.cons.inj heq).2, (List.forall_mem_cons.mp hbefore).2, hy⟩
  · rintro ⟨before, y, after, rfl, hbefore, hy⟩
    exact ⟨x :: before, y, after, rfl, List.forall_mem_cons.mpr ⟨⟨z, h⟩, hbefore⟩, hy⟩

theorem failsFirst_cons_of_error {x : α} {first : ε} (h : f x = .error first) :
    FailsFirst f (x :: xs) failure ↔ failure = first := by
  constructor
  · rintro ⟨before, y, after, heq, hbefore, hy⟩
    cases before with
    | nil =>
      obtain ⟨rfl, -⟩ := List.cons.inj heq
      exact Except.error.inj (hy.symm.trans h)
    | cons b before =>
      obtain ⟨rfl, -⟩ := List.cons.inj heq
      obtain ⟨z, hz⟩ := hbefore x List.mem_cons_self
      exact nomatch h.symm.trans hz
  · rintro rfl
    exact ⟨[], x, xs, rfl, nofun, h⟩

/-- **Steps taken one after another fail as the first one does that fails.** -/
theorem mapM_eq_error_iff : xs.mapM f = .error failure ↔ FailsFirst f xs failure := by
  induction xs with
  | nil =>
    constructor
    · exact nofun
    · rintro ⟨before, x, after, heq, -⟩
      exact absurd heq (by simp)
  | cons x rest ih =>
    rw [List.mapM_cons]
    cases hx : f x with
    | error first =>
      rw [failsFirst_cons_of_error hx]
      exact ⟨fun h => (Except.error.inj h).symm, fun h => congrArg _ h.symm⟩
    | ok z =>
      rw [failsFirst_cons_of_ok hx, ← ih]
      cases rest.mapM f with
      | error other => exact Iff.rfl
      | ok zs => exact ⟨nofun, nofun⟩

theorem exists_mem_of_forall₂ {R : α → β → Prop} {zs : List β} (h : Forall₂ R xs zs) {x : α}
    (hx : x ∈ xs) : ∃ z ∈ zs, R x z := by
  induction h with
  | nil => exact absurd hx List.not_mem_nil
  | cons hfirst _ ih =>
    rcases List.mem_cons.mp hx with rfl | hx
    · exact ⟨_, List.mem_cons_self, hfirst⟩
    · obtain ⟨z, hz, hR⟩ := ih hx
      exact ⟨z, List.mem_cons_of_mem _ hz, hR⟩

/-- Steps succeed together where each of them succeeds. -/
theorem mapM_succeeds_iff : (∃ zs, xs.mapM f = .ok zs) ↔ ∀ x ∈ xs, ∃ z, f x = .ok z := by
  constructor
  · rintro ⟨zs, hzs⟩ x hx
    obtain ⟨z, -, hz⟩ := exists_mem_of_forall₂ (forall₂_of_mapM_eq_ok hzs) hx
    exact ⟨z, hz⟩
  · intro h
    obtain ⟨zs, hzs, -⟩ := exists_mapM_eq_ok h
    exact ⟨zs, hzs⟩

/-- There is a first failure where there is one. -/
theorem exists_failsFirst_iff :
    (∃ failure, FailsFirst f xs failure) ↔ ∃ x ∈ xs, ∃ failure, f x = .error failure := by
  constructor
  · rintro ⟨failure, before, x, after, rfl, -, hx⟩
    exact ⟨x, by simp, failure, hx⟩
  · rintro ⟨x, hmem, failure, hx⟩
    cases hall : xs.mapM f with
    | error first => exact ⟨first, mapM_eq_error_iff.mp hall⟩
    | ok zs =>
      obtain ⟨z, hz⟩ := mapM_succeeds_iff.mp ⟨zs, hall⟩ x hmem
      exact nomatch hx.symm.trans hz

end Failure

end CircuitExpr
