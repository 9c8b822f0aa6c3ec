import Mathlib
import CircuitExpr.Proofs.Derivative.Targets
import CircuitExpr.Variable.Bindings

/-!
# Variables that are the same cannot be told apart

Whether two variables are the same is asked in several ways: an expression compares them directly,
bindings and maps look up their keys, and a derivative does both. All of these agree. Variables
that are the same are answered alike wherever one of them is asked for, and these are the only
ones; what is stored under a variable is never seen under another one.

## Main statements

* `Bindings.get?_bindAll` — after any run of bindings a variable reads what it was last bound to
* `Indistinguishable`, `Independent` — what it means to be answered alike, and to be kept apart
* `NameComparison.identity_congruence` — variables that are the same are indistinguishable, and all
  others are independent
-/

namespace CircuitExpr

open VariableMap (ofList lastOf)

/-! ## Runs of bindings -/

namespace Bindings

/-- Binds variables one after another. -/
def bindAll (b : Bindings) (bound : List (Variable × SourceId)) : Bindings :=
  bound.foldl (fun b entry => b.bind entry.1 entry.2) b

variable {b : Bindings} {v w : Variable}

theorem bindAll_concat (b : Bindings) (bound : List (Variable × SourceId))
    (entry : Variable × SourceId) :
    b.bindAll (bound ++ [entry]) = (b.bindAll bound).bind entry.1 entry.2 := by
  rw [bindAll, bindAll, List.foldl_append]
  rfl

@[simp] theorem comparison_bindAll (b : Bindings) (bound : List (Variable × SourceId)) :
    (b.bindAll bound).comparison = b.comparison := by
  induction bound using List.reverseRecOn with
  | nil => rfl
  | append_singleton bound entry ih => rw [bindAll_concat, bind, ih]

/-- **A variable reads what it was last bound to**, in whatever spelling. -/
theorem get?_bindAll (b : Bindings) (bound : List (Variable × SourceId)) (v : Variable) :
    (b.bindAll bound).get? v =
      ((lastOf b.comparison bound v).map Prod.snd).or (b.get? v) := by
  induction bound using List.reverseRecOn with
  | nil => rfl
  | append_singleton bound entry ih =>
    rw [bindAll_concat, VariableMap.lastOf_concat]
    have hcomm : (b.bindAll bound).comparison.same v entry.1 = b.comparison.same entry.1 v := by
      rw [comparison_bindAll, NameComparison.same_comm]
    cases hsame : b.comparison.same entry.1 v with
    | true => exact get?_bind_of_same (hcomm.trans hsame) _
    | false =>
      rw [if_neg Bool.false_ne_true, ← ih]
      exact get?_bind_of_not_same (hcomm.trans hsame) _

/-- Bindings do not see how a variable is spelled. -/
theorem get?_congr (h : b.comparison.key v = b.comparison.key w) : b.get? v = b.get? w := by
  rw [get?, get?, h]

theorem bind_congr (h : b.comparison.key v = b.comparison.key w) (source : SourceId) :
    b.bind v source = b.bind w source := by
  rw [bind, bind, h]

end Bindings

/-! ## Maps -/

namespace VariableMap

variable {A : Type} {m : VariableMap A} {v w : Variable}

/-- Neither do maps. -/
theorem get?_congr (h : m.comparison.key v = m.comparison.key w) : m.get? v = m.get? w := by
  rw [get?, get?, place?, place?, h]

theorem get?_insert_congr (hm : m.Indexed) (h : m.comparison.key v = m.comparison.key w) (a : A)
    (u : Variable) : (m.insert v a).get? u = (m.insert w a).get? u := by
  have hsame : m.comparison.same v u = m.comparison.same w u := by
    rw [NameComparison.same_comm, NameComparison.same_congr h, NameComparison.same_comm]
  cases hu : m.comparison.same v u with
  | true => rw [hm.get?_insert_of_same hu, hm.get?_insert_of_same (hsame ▸ hu)]
  | false => rw [hm.get?_insert_of_not_same hu, hm.get?_insert_of_not_same (hsame ▸ hu)]

end VariableMap

/-! ## Identity -/

/-- Whatever is asked about one of two variables is answered in the same way about the other. -/
structure Indistinguishable (c : NameComparison) (v w : Variable) : Prop where
  dependsOn : ∀ {K : Type} (e : Expr K), Expr.dependsOn c v e = Expr.dependsOn c w e
  derive : ∀ {K : Type} [Literal K] (t : FunctionTable K) (e : Expr K),
    Expr.derive t c v e = Expr.derive t c w e
  bound : ∀ b : Bindings, b.comparison = c → b.get? v = b.get? w
  bind : ∀ b : Bindings, b.comparison = c → ∀ source, b.bind v source = b.bind w source
  found : ∀ {A : Type} (insertions : List (Variable × A)),
    (ofList c insertions).get? v = (ofList c insertions).get? w
  insert : ∀ {A : Type} (insertions : List (Variable × A)) (a : A) (u : Variable),
    ((ofList c insertions).insert v a).get? u = ((ofList c insertions).insert w a).get? u

/-- What is stored under the first variable is not seen under the second one. -/
structure Independent (c : NameComparison) (v w : Variable) : Prop where
  bind : ∀ b : Bindings, b.comparison = c → ∀ source, (b.bind v source).get? w = b.get? w
  insert : ∀ {A : Type} (insertions : List (Variable × A)) (a : A),
    ((ofList c insertions).insert v a).get? w = (ofList c insertions).get? w

namespace NameComparison

variable {c : NameComparison} {v w : Variable}

theorem indistinguishable_of_same (h : c.same v w = true) : Indistinguishable c v w := by
  have hkey := same_iff_key_eq.mp h
  constructor
  · exact Expr.dependsOn_congr hkey
  · exact fun _ => Expr.derive_congr hkey
  · rintro b rfl
    exact Bindings.get?_congr hkey
  · rintro b rfl
    exact Bindings.bind_congr hkey
  · exact fun insertions => VariableMap.get?_congr (by rwa [VariableMap.comparison_ofList])
  · exact fun insertions => VariableMap.get?_insert_congr (VariableMap.indexed_ofList c insertions)
      (by rwa [VariableMap.comparison_ofList])

/-- An expression that is one of the variables tells it apart from all others. -/
theorem same_of_indistinguishable (h : Indistinguishable c v w) : c.same v w = true := by
  have hself : Expr.dependsOn c v (.var v : Expr Unit) = true := same_iff_key_eq.mpr rfl
  rwa [h.dependsOn] at hself

theorem independent_of_not_same (h : c.same v w = false) : Independent c v w := by
  constructor
  · rintro b rfl source
    exact Bindings.get?_bind_of_not_same ((same_comm _ _ _).trans h) source
  · intro A insertions a
    exact (VariableMap.indexed_ofList c insertions).get?_insert_of_not_same
      (by rwa [VariableMap.comparison_ofList]) a

/-- What is bound to a variable is seen under those that are the same. -/
theorem not_same_of_independent (h : Independent c v w) : c.same v w = false := by
  rw [not_same_iff_key_ne]
  intro hkey
  have hbound : ((Bindings.empty c).bind v 0).get? w = some 0 :=
    Bindings.get?_bind_of_same (same_iff_key_eq.mpr hkey.symm) 0
  rw [h.bind _ rfl] at hbound
  exact nomatch hbound

theorem equivalence_same (c : NameComparison) : Equivalence fun v w => c.same v w = true := by
  simp only [same_iff_key_eq]
  exact ⟨fun _ => rfl, Eq.symm, Eq.trans⟩

/--
**Identity of variables is a congruence.** For either comparison it is the equality of keys.
Variables that are the same are indistinguishable in expressions, derivatives, bindings and maps,
and no others are; what is stored under a variable is not seen under those that are not the same.
So after any run of bindings or insertions a variable has what was last stored under one that is
the same.
-/
theorem identity_congruence (c : NameComparison) :
    Equivalence (fun v w => c.same v w = true) ∧
      (∀ v w, (c.same v w = true ↔ c.key v = c.key w) ∧
        (c.same v w = true ↔ Indistinguishable c v w) ∧
        (c.same v w = false ↔ Independent c v w)) ∧
      (∀ bound v, ((Bindings.empty c).bindAll bound).get? v =
        (lastOf c bound v).map Prod.snd) ∧
      ∀ {A : Type} (insertions : List (Variable × A)) (v : Variable),
        (ofList c insertions).get? v = (lastOf c insertions v).map Prod.snd := by
  refine ⟨equivalence_same c, fun v w => ⟨same_iff_key_eq, ?_, ?_⟩, fun bound v => ?_,
    fun insertions v => VariableMap.get?_ofList insertions v⟩
  · exact ⟨indistinguishable_of_same, same_of_indistinguishable⟩
  · exact ⟨independent_of_not_same, not_same_of_independent⟩
  · rw [Bindings.get?_bindAll]
    exact Option.or_none

/-- Case makes no difference, but the quantity does. -/
example : NameComparison.caseInsensitive.same (.voltage "OUT") (.voltage "out") = true ∧
    NameComparison.caseInsensitive.same (.voltage "out") ⟨"out", .voltage, .real⟩ = false := by
  decide

end NameComparison

end CircuitExpr
