import Mathlib
import CircuitExpr.Proofs.Derivative.Closed
import CircuitExpr.Proofs.Evaluation.Validity
import CircuitExpr.Proofs.Function.Library

/-!
# What derivatives use

A derivative reads no other variables than the expression, and where the operators and calls that
the rules bring in are allowed it is allowed as well, if only the expression is.

## Main statements

* `AllowsLibrary` — what the rules of differentiation bring in is allowed
* `exists_derive_uses` — an expression that only calls the library has a derivative
-/

namespace CircuitExpr

open CircuitExpr.Expr LibraryFunction

variable {K : Type} [Literal K] {P : Variable → Prop} {Q : BinaryOp → Prop}
  {R : String → Nat → Prop} {es : List (Expr K)}

/-- All operators other than orderings are allowed, and all calls of the library. -/
structure AllowsLibrary (Q : BinaryOp → Prop) (R : String → Nat → Prop) : Prop where
  operator : ∀ op : BinaryOp, op.isOrdering = false → Q op
  call : ∀ (f : LibraryFunction) (count : Nat), f.arity.accepts count = true → R f.name count

omit [Literal K] in
/-- So an expression with allowed parts is allowed when the rules have put it together. -/
theorem AllowsLibrary.closed (hL : AllowsLibrary Q R) :
    Closed (fun _ => True) (Uses P Q R : Expr K → Prop) where
  const := .const
  minus := by
    refine ⟨fun h => ?_, .unary .minus⟩
    cases h with
    | unary _ h => exact h
  binary hop ha hb := .binary (hL.operator _ hop) ha hb
  cond := .cond
  call {f es} _ haccepts hes := .call (hL.call f es.length haccepts) hes
  own := ⟨trivial, trivial, trivial, trivial⟩

/-! ## Derivatives -/

theorem Expr.exists_deriveEach_uses {t : FunctionTable K} {comparison : NameComparison}
    {v : Variable} (h : ∀ e ∈ es, ∃ d, derive t comparison v e = .ok d ∧ d.Uses P Q R) :
    ∃ slopes, deriveEach t comparison v es = .ok slopes ∧ ∀ d ∈ slopes, d.Uses P Q R := by
  induction es with
  | nil => exact ⟨[], deriveEach_nil _ _ _, nofun⟩
  | cons e rest ih =>
    obtain ⟨⟨d, hd, hdu⟩, hrest⟩ := List.forall_mem_cons.mp h
    obtain ⟨slopes, hslopes, hslopesu⟩ := ih hrest
    refine ⟨d :: slopes, ?_, List.forall_mem_cons.mpr ⟨hdu, hslopesu⟩⟩
    rw [deriveEach_cons, hd, hslopes]
    rfl

/--
**An expression that only calls the library has a derivative**, which uses nothing that the
expression does not use, other than operators and calls that the rules bring in.
-/
theorem Expr.exists_derive_uses (hL : AllowsLibrary Q R)
    (hcalls : ∀ name count, R name count →
      ∃ d, (FunctionTable.library : FunctionTable K).resolve name count = .ok d)
    (comparison : NameComparison) (v : Variable) {e : Expr K} (h : e.Uses P Q R) :
    ∃ d, derive .library comparison v e = .ok d ∧ d.Uses P Q R := by
  have hS : Closed (fun _ => True) (Uses P Q R : Expr K → Prop) := hL.closed
  induction e using Expr.induction with
  | const value => exact ⟨zero, derive_const _ _ v value, hS.zero⟩
  | var w =>
    refine ⟨if comparison.same w v then one else zero, derive_var _ _ v w, ?_⟩
    split
    · exact hS.one
    · exact hS.zero
  | unary op operand ih =>
    cases h with
    | unary _ h =>
      cases op with
      | plus =>
        obtain ⟨d, hd, hdu⟩ := ih h
        exact ⟨d, by rw [derive_plus, hd], hdu⟩
      | minus =>
        obtain ⟨d, hd, hdu⟩ := ih h
        exact ⟨negate d, derive_minus_eq hd, hS.negate hdu⟩
      | not => exact ⟨zero, derive_not _ _ v operand, hS.zero⟩
  | binary op left right ihl ihr =>
    cases h with
    | binary hop hl hr =>
      by_cases hlogical : op.isLogical = true
      · exact ⟨zero, derive_logical_eq hlogical, hS.zero⟩
      · obtain ⟨da, hda, hdau⟩ := ihl hl
        obtain ⟨db, hdb, hdbu⟩ := ihr hr
        exact ⟨binarySlope op left right da db,
          derive_binary_eq (Bool.eq_false_iff.mpr hlogical) hda hdb,
          hS.binarySlope op hl hr hdau hdbu⟩
  | cond condition whenTrue whenFalse ihc iht ihf =>
    cases h with
    | cond hc ht hf =>
      obtain ⟨dt, hdt, hdtu⟩ := iht ht
      obtain ⟨df, hdf, hdfu⟩ := ihf hf
      exact ⟨conditionalSlope condition dt df, derive_cond_eq hdt hdf,
        hS.conditionalSlope hc hdtu hdfu⟩
  | call name arguments ih =>
    cases h with
    | call hname h =>
      by_cases hdepends : anyDependsOn comparison v arguments = true
      · obtain ⟨d, hd⟩ := hcalls name _ hname
        obtain ⟨f, rfl, haccepts⟩ := FunctionTable.library_resolve_eq_ok hd
        obtain ⟨slopes, hslopes, hslopesu⟩ := exists_deriveEach_uses fun e he => ih e he (h e he)
        exact ⟨chain (f.rule arguments) slopes,
          derive_call_eq hdepends hd rfl (rule_length haccepts) hslopes,
          hS.chain (hS.rule f h) hslopesu⟩
      · exact ⟨zero, derive_call_of_absent (Bool.eq_false_iff.mpr hdepends), hS.zero⟩
  | ext name arguments ih => cases h

end CircuitExpr
