import Mathlib
import CircuitExpr.Proofs.Behavior.Build
import CircuitExpr.Proofs.Evaluation.Steps

/-!
# Derivatives for several targets

The derivatives for a list of targets are those for each target by itself. What could come between
them is that a target is given twice: then one entry takes the place of the other, and the two
need not be spelled alike. But spellings of one variable are not told apart, neither where a
variable is looked for in an expression nor anywhere in its derivative.

## Main statements

* `Expr.derive_congr` — the derivative does not see how its variable is spelled
* `Expr.deriveTargets_independent` — derivatives for targets are made independently
-/

namespace CircuitExpr

open List (Forall₂)

/-! ## Spellings -/

namespace Expr

variable {K : Type} {c : NameComparison} {v w : Variable}

theorem anyDependsOn_congr {es : List (Expr K)}
    (h : ∀ e ∈ es, dependsOn c v e = dependsOn c w e) :
    anyDependsOn c v es = anyDependsOn c w es := by
  induction es with
  | nil => rfl
  | cons e rest ih =>
    obtain ⟨he, hrest⟩ := List.forall_mem_cons.mp h
    rw [anyDependsOn, anyDependsOn, he, ih hrest]

/-- An expression depends on a variable however it is spelled. -/
theorem dependsOn_congr (h : c.key v = c.key w) (e : Expr K) :
    dependsOn c v e = dependsOn c w e := by
  induction e using Expr.induction with
  | const value => rfl
  | var u => exact NameComparison.same_congr h u
  | unary op operand ih => exact ih
  | binary op left right ihl ihr => rw [dependsOn, dependsOn, ihl, ihr]
  | cond condition whenTrue whenFalse ihc iht ihf => rw [dependsOn, dependsOn, ihc, iht, ihf]
  | call name arguments ih => exact anyDependsOn_congr ih
  | ext name arguments ih => exact anyDependsOn_congr ih

section Derive

variable [Literal K] {t : FunctionTable K}

theorem deriveEach_congr {es : List (Expr K)} (h : ∀ e ∈ es, derive t c v e = derive t c w e) :
    deriveEach t c v es = deriveEach t c w es := by
  induction es with
  | nil => rfl
  | cons e rest ih =>
    obtain ⟨he, hrest⟩ := List.forall_mem_cons.mp h
    rw [deriveEach_cons, deriveEach_cons, he, ih hrest]

/-- **The derivative does not see how its variable is spelled**, and neither does its failure. -/
theorem derive_congr (h : c.key v = c.key w) (e : Expr K) : derive t c v e = derive t c w e := by
  induction e using Expr.induction with
  | const value => rfl
  | var u => rw [derive_var, derive_var, NameComparison.same_congr h]
  | unary op operand ih =>
    cases op with
    | plus => exact ih
    | minus => rw [derive_minus, derive_minus, ih]
    | not => rfl
  | binary op left right ihl ihr => rw [derive_binary, derive_binary, ihl, ihr]
  | cond condition whenTrue whenFalse ihc iht ihf => rw [derive_cond, derive_cond, iht, ihf]
  | call name arguments ih =>
    have huses := anyDependsOn_congr fun e (_ : e ∈ arguments) => dependsOn_congr h e
    rw [derive_call, derive_call, huses, deriveEach_congr ih]
  | ext name arguments ih =>
    have huses := anyDependsOn_congr fun e (_ : e ∈ arguments) => dependsOn_congr h e
    rw [derive_ext, derive_ext, huses]

end Derive

end Expr

/-! ## Several targets -/

namespace Expr

variable {K : Type} [Literal K] {t : FunctionTable K} {c : NameComparison} {e : Expr K}
  {targets : List Variable} {m : VariableMap (Expr K)} {v : Variable}

/-- One step for each target: its derivative under the target's own spelling. -/
def deriveTarget (t : FunctionTable K) (c : NameComparison) (e : Expr K) (v : Variable) :
    Except ExpressionError (Variable × Expr K) := do
  return (v, ← derive t c v e)

theorem deriveTarget_eq_ok {entry : Variable × Expr K} :
    deriveTarget t c e v = .ok entry ↔ entry.1 = v ∧ derive t c v e = .ok entry.2 := by
  rw [deriveTarget, bind_eq_ok]
  constructor
  · rintro ⟨d, hd, h⟩
    obtain rfl := Except.ok.inj h
    exact ⟨rfl, hd⟩
  · rintro ⟨rfl, hd⟩
    exact ⟨entry.2, hd, rfl⟩

theorem deriveTarget_eq_error {x : ExpressionError} :
    deriveTarget t c e v = .error x ↔ derive t c v e = .error x :=
  bind_pure_eq_error

theorem exists_deriveTarget_iff :
    (∃ entry, deriveTarget t c e v = .ok entry) ↔ ∃ d, derive t c v e = .ok d := by
  constructor
  · rintro ⟨entry, h⟩
    exact ⟨entry.2, (deriveTarget_eq_ok.mp h).2⟩
  · rintro ⟨d, hd⟩
    exact ⟨(v, d), deriveTarget_eq_ok.mpr ⟨rfl, hd⟩⟩

/-- The derivatives are made in order, and then inserted in order. -/
theorem deriveTargets_eq_ok_iff :
    e.deriveTargets t c targets = .ok m ↔
      ∃ derived, targets.mapM (deriveTarget t c e) = .ok derived ∧
        m = VariableMap.ofList c derived := by
  show (targets.mapM (deriveTarget t c e) >>= _) = _ ↔ _
  rw [bind_eq_ok]
  exact exists_congr fun derived => and_congr_right' ⟨fun h => (Except.ok.inj h).symm,
    fun h => congrArg _ h.symm⟩

/-- The map is made of one entry for each target, in order. -/
theorem exists_derived (h : e.deriveTargets t c targets = .ok m) :
    ∃ derived, Forall₂ (fun v entry => entry.1 = v ∧ derive t c v e = .ok entry.2) targets derived ∧
      derived.map Prod.fst = targets ∧ m = VariableMap.ofList c derived := by
  obtain ⟨derived, hderived, rfl⟩ := deriveTargets_eq_ok_iff.mp h
  have hsteps := (forall₂_of_mapM_eq_ok hderived).imp fun _ _ => deriveTarget_eq_ok.mp
  refine ⟨derived, hsteps, ?_, rfl⟩
  rw [← List.forall₂_eq_eq_eq, List.forall₂_map_left_iff]
  exact hsteps.flip.imp fun _ _ hstep => hstep.1

theorem deriveTargets_eq_error_iff {x : ExpressionError} :
    e.deriveTargets t c targets = .error x ↔ FailsFirst (derive t c · e) targets x := by
  have hsteps : FailsFirst (derive t c · e) targets x ↔
      FailsFirst (deriveTarget t c e) targets x := by
    simp only [FailsFirst, deriveTarget_eq_error, exists_deriveTarget_iff]
  rw [hsteps, ← mapM_eq_error_iff]
  exact bind_pure_eq_error

theorem exists_deriveTargets_iff :
    (∃ m, e.deriveTargets t c targets = .ok m) ↔ ∀ v ∈ targets, ∃ d, derive t c v e = .ok d := by
  simp only [deriveTargets_eq_ok_iff, ← exists_deriveTarget_iff (v := _), ← mapM_succeeds_iff]
  exact ⟨fun ⟨_, derived, h, _⟩ => ⟨derived, h⟩, fun ⟨derived, h⟩ => ⟨_, derived, h, rfl⟩⟩

theorem mem_of_lastOf {A : Type} {insertions : List (Variable × A)} {entry : Variable × A}
    (h : VariableMap.lastOf c insertions v = some entry) :
    entry ∈ insertions ∧ c.same entry.1 v = true :=
  ⟨List.mem_reverse.mp (List.mem_of_find?_eq_some h),
    List.find?_some (p := fun entry : Variable × A => c.same entry.1 v) h⟩

/-- What is found under a variable is its own derivative, if the variable is a target. -/
theorem get?_deriveTargets (h : e.deriveTargets t c targets = .ok m) (v : Variable)
    (d : Expr K) :
    m.get? v = some d ↔ (∃ w ∈ targets, c.same w v = true) ∧ derive t c v e = .ok d := by
  obtain ⟨derived, hsteps, -, rfl⟩ := exists_derived h
  have hentry : ∀ entry ∈ derived, c.same entry.1 v = true →
      (∃ w ∈ targets, c.same w v = true) ∧ derive t c v e = .ok entry.2 := by
    intro entry hmem hsame
    obtain ⟨w, hw, rfl, hd⟩ := exists_mem_of_forall₂ hsteps.flip hmem
    exact ⟨⟨_, hw, hsame⟩, by rwa [← derive_congr (NameComparison.same_iff_key_eq.mp hsame)]⟩
  rw [VariableMap.get?_ofList, Option.map_eq_some_iff]
  constructor
  · rintro ⟨entry, hlast, rfl⟩
    obtain ⟨hmem, hsame⟩ := mem_of_lastOf hlast
    exact hentry entry hmem hsame
  · rintro ⟨⟨w, hw, hsame⟩, hd⟩
    obtain ⟨entry, hmem, rfl, -⟩ := exists_mem_of_forall₂ hsteps hw
    obtain ⟨last, hlast⟩ : ∃ last, VariableMap.lastOf c derived v = some last :=
      Option.isSome_iff_exists.mp (List.find?_isSome.mpr ⟨entry, List.mem_reverse.mpr hmem, hsame⟩)
    obtain ⟨hlastMem, hlastSame⟩ := mem_of_lastOf hlast
    obtain ⟨-, hd'⟩ := hentry last hlastMem hlastSame
    exact ⟨last, hlast, Except.ok.inj (hd'.symm.trans hd)⟩

/-- The variables stand in the order of their first occurrences, each spelled as at its last. -/
theorem keys_deriveTargets (h : e.deriveTargets t c targets = .ok m) :
    m.keys.map some =
      (firstOccurrences c [] targets).map fun v => targets.reverse.find? (c.same · v) := by
  obtain ⟨derived, -, hvariables, rfl⟩ := exists_derived h
  have hlast : ∀ v, (VariableMap.lastOf c derived v).map Prod.fst =
      targets.reverse.find? (c.same · v) := by
    intro v
    rw [← hvariables, ← List.map_reverse, List.find?_map]
    rfl
  have hentries := congrArg (List.map (Option.map Prod.fst))
    (VariableMap.entries_ofList (c := c) derived)
  rw [List.map_map, List.map_map, hvariables] at hentries
  rw [VariableMap.keys, List.map_map]
  exact hentries.trans (List.map_congr_left fun v _ => hlast v)

/-- Lists of targets with the same variables, whatever their order, number and spelling. -/
def SameTargets (c : NameComparison) (targets others : List Variable) : Prop :=
  ∀ v, (∃ w ∈ targets, c.same w v = true) ↔ ∃ w ∈ others, c.same w v = true

theorem derive_of_sameTargets {others : List Variable} (h : SameTargets c targets others)
    (hall : ∀ v ∈ targets, ∃ d, derive t c v e = .ok d) :
    ∀ v ∈ others, ∃ d, derive t c v e = .ok d := by
  intro v hv
  obtain ⟨w, hw, hsame⟩ := (h v).mpr ⟨v, hv, NameComparison.same_iff_key_eq.mpr rfl⟩
  rw [← derive_congr (NameComparison.same_iff_key_eq.mp hsame)]
  exact hall w hw

/-- A map holds the derivatives for these targets. -/
structure DerivesTargets (t : FunctionTable K) (c : NameComparison) (e : Expr K)
    (targets : List Variable) (m : VariableMap (Expr K)) : Prop where
  comparison : m.comparison = c
  /-- Under every spelling of a target there is the derivative for it. -/
  get : ∀ w ∈ targets, ∀ v, c.same w v = true → ∃ d, derive t c v e = .ok d ∧ m.get? v = some d
  none : ∀ v, (∀ w ∈ targets, c.same w v = false) → m.get? v = none
  order : m.keys.map c.key = (firstOccurrences c [] targets).map c.key
  nodup : (m.keys.map c.key).Nodup
  /-- Each variable is spelled as the last of its targets. -/
  spelling : m.keys.map some =
    (firstOccurrences c [] targets).map fun v => targets.reverse.find? (c.same · v)

/-- The keys are those of the targets, each of them once. -/
theorem deriveTargets_eq_ok (h : e.deriveTargets t c targets = .ok m) :
    m.comparison = c ∧ m.Indexed ∧
      m.lookupKeys = (firstOccurrences c [] targets).map c.key := by
  obtain ⟨derived, -, hvariables, rfl⟩ := exists_derived h
  refine ⟨VariableMap.comparison_ofList _ _, VariableMap.indexed_ofList _ _, ?_⟩
  rw [VariableMap.lookupKeys_ofList, hvariables]

theorem derivesTargets (h : e.deriveTargets t c targets = .ok m) :
    DerivesTargets t c e targets m := by
  obtain ⟨hcomparison, -, hkeys⟩ := deriveTargets_eq_ok h
  have horder : m.keys.map c.key = (firstOccurrences c [] targets).map c.key := by
    rwa [VariableMap.lookupKeys, hcomparison] at hkeys
  refine ⟨hcomparison, ?_, ?_, horder, ?_, keys_deriveTargets h⟩
  · intro w hw v hsame
    obtain ⟨d, hd⟩ := exists_deriveTargets_iff.mp ⟨m, h⟩ w hw
    rw [derive_congr (NameComparison.same_iff_key_eq.mp hsame)] at hd
    exact ⟨d, hd, (get?_deriveTargets h v d).mpr ⟨⟨w, hw, hsame⟩, hd⟩⟩
  · refine fun v hnone => Option.eq_none_iff_forall_ne_some.mpr fun d hd => ?_
    obtain ⟨⟨w, hw, hsame⟩, -⟩ := (get?_deriveTargets h v d).mp hd
    exact Bool.false_ne_true ((hnone w hw).symm.trans hsame)
  · rw [horder]
    exact nodup_firstOccurrences [] targets

/--
**Derivatives for several targets are made independently.** They fail where one of the targets
does, as the first of those. Otherwise each target has the derivative that it has by itself, the
variables are those of the targets, each once and in order, and other targets with the same
variables give the same derivatives.
-/
theorem deriveTargets_independent (t : FunctionTable K) (c : NameComparison) (e : Expr K)
    (targets : List Variable) :
    (∀ x, e.deriveTargets t c targets = .error x ↔ FailsFirst (derive t c · e) targets x) ∧
      ((∃ x, e.deriveTargets t c targets = .error x) ↔
        ∃ v ∈ targets, ∃ x, derive t c v e = .error x) ∧
      (∀ m, e.deriveTargets t c targets = .ok m → DerivesTargets t c e targets m) ∧
      ∀ others, SameTargets c targets others →
        ((∃ m, e.deriveTargets t c targets = .ok m) ↔
          ∃ m, e.deriveTargets t c others = .ok m) ∧
        ∀ m m', e.deriveTargets t c targets = .ok m → e.deriveTargets t c others = .ok m' →
          ∀ v, m.get? v = m'.get? v := by
  refine ⟨fun _ => deriveTargets_eq_error_iff, ?_, fun _ => derivesTargets, ?_⟩
  · simp only [deriveTargets_eq_error_iff, exists_failsFirst_iff]
  · refine fun others hsame => ⟨?_, fun m m' hm hm' v => ?_⟩
    · rw [exists_deriveTargets_iff, exists_deriveTargets_iff]
      exact ⟨derive_of_sameTargets hsame, derive_of_sameTargets fun v => (hsame v).symm⟩
    · ext d
      rw [get?_deriveTargets hm, get?_deriveTargets hm', hsame v]

/-- A target that is given twice keeps its place and takes the later spelling. -/
example : ((const (1 : Float)).deriveTargets FunctionTable.empty .caseInsensitive
    [.voltage "OUT", .voltage "in", .voltage "out"]).map VariableMap.keys =
      .ok [.voltage "out", .voltage "in"] := rfl

end Expr

end CircuitExpr
