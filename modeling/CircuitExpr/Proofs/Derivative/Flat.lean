import Mathlib
import CircuitExpr.Proofs.Derivative.Absent
import CircuitExpr.Proofs.Evaluation.Outcome

/-!
# Values of slopes by absent variables

The slope by a variable that does not occur need not be the constant zero, since a guard or an
overflow may keep it from folding away. Its value is zero all the same, unless it is not finite:
such numbers are an ideal, and whatever differentiation puts together out of slopes stays within
it.

## Main statements

* `YieldsIn` — what an expression yields is within a set of numbers
* `YieldsIn.product_left`, `YieldsIn.quotient`, … — the folding constructors
* `derive_absent_yieldsIn` — slopes by absent variables are within every ideal
-/

namespace CircuitExpr.Expr

open Scalar (Ideal)
open Run

variable {D σ : Type} [Scalar D Float] {env : Environment Float D σ} {setting : Setting D}
  {Z W : D → Prop} {a b da db : Expr Float}

/-- Whatever the expression yields, in whatever state of the host, is one of the numbers. -/
def YieldsIn (env : Environment Float D σ) (setting : Setting D) (Z : D → Prop)
    (e : Expr Float) : Prop :=
  ∀ host host' x, (e.evaluate env setting).outcome host = (.ok x, host') → Z x

/-! ## Forms of expressions -/

theorem yieldsIn_any (e : Expr Float) : YieldsIn env setting (fun _ => True) e :=
  fun _ _ _ _ => trivial

theorem yieldsIn_const {u : Float} (h : Z (Scalar.ofReal u)) :
    YieldsIn env setting Z (.const u) := by
  intro host host' x hx
  rw [evaluate, outcome_pure] at hx
  cases hx
  exact h

/-- There is a state of the host, or nothing is asked for. -/
theorem YieldsIn.const {u : Float} (h : YieldsIn env setting Z (.const u)) (host : σ) :
    Z (Scalar.ofReal u) :=
  h host host _ (by rw [evaluate, outcome_pure])

theorem YieldsIn.binary {op : BinaryOp} (ha : YieldsIn env setting Z a)
    (hb : YieldsIn env setting W b) {V : D → Prop}
    (hop : ∀ x y z, Z x → W y → op.apply env.tolerances x y = .ok z → V z) :
    YieldsIn env setting V (.binary op a b) := by
  intro host host' z hz
  rw [evaluate, outcome_bind_eq_ok] at hz
  obtain ⟨x, host₁, hx, hz⟩ := hz
  rw [outcome_bind_eq_ok] at hz
  obtain ⟨y, host₂, hy, hz⟩ := hz
  rw [outcome_ofExcept] at hz
  exact hop x y z (ha _ _ _ hx) (hb _ _ _ hy) (Prod.mk.inj hz).1

theorem YieldsIn.cond {condition : Expr Float} (ha : YieldsIn env setting Z a)
    (hb : YieldsIn env setting Z b) : YieldsIn env setting Z (.cond condition a b) := by
  intro host host' z hz
  rw [evaluate, outcome_bind_eq_ok] at hz
  obtain ⟨x, host₁, -, hz⟩ := hz
  split at hz
  · exact ha _ _ _ hz
  · exact hb _ _ _ hz

variable (hZ : Ideal Z)
include hZ

theorem yieldsIn_zero : YieldsIn env setting Z zero :=
  yieldsIn_const ((hZ.ofReal_iff 0).mpr Binary64.degenerate_zero)

/-- Constants that are folded stay degenerate. -/
theorem yieldsIn_const_of {u : Float} (h : σ → Binary64.Degenerate u) :
    YieldsIn env setting Z (.const u) := by
  intro host
  exact yieldsIn_const ((hZ.ofReal_iff u).mpr (h host)) host

theorem YieldsIn.degenerate {u : Float} (h : YieldsIn env setting Z (.const u)) (host : σ) :
    Binary64.Degenerate u :=
  (hZ.ofReal_iff u).mp (h.const host)

theorem yieldsIn_minus_iff :
    YieldsIn env setting Z (.unary .minus a) ↔ YieldsIn env setting Z a := by
  constructor
  · intro h host host' x hx
    refine hZ.neg_iff.mp (h host host' (-x) ?_)
    rw [evaluate, outcome_bind_ok hx, outcome_pure]
    rfl
  · intro h host host' x hx
    rw [evaluate, outcome_bind_eq_ok] at hx
    obtain ⟨y, host₁, hy, hx⟩ := hx
    rw [outcome_pure] at hx
    cases hx
    exact hZ.neg_iff.mpr (h _ _ _ hy)

/-! ## Folding constructors -/

theorem YieldsIn.negate (ha : YieldsIn env setting Z a) : YieldsIn env setting Z (negate a) := by
  obtain ⟨x, rfl, h⟩ | ⟨inner, rfl, h⟩ | h := negate_cases a <;> rw [h]
  · exact yieldsIn_const_of hZ fun host => Binary64.degenerate_neg_iff.mpr (ha.degenerate hZ host)
  · exact (yieldsIn_minus_iff hZ).mp ha
  · exact (yieldsIn_minus_iff hZ).mpr ha

theorem YieldsIn.sum (ha : YieldsIn env setting Z a) (hb : YieldsIn env setting Z b) :
    YieldsIn env setting Z (Expr.sum a b) := by
  obtain ⟨x, y, rfl, rfl, h⟩ | ⟨x, -, -, h⟩ | ⟨y, -, -, h⟩ | h := sum_cases a b <;> rw [h]
  · exact yieldsIn_const_of hZ fun host => (ha.degenerate hZ host).add (hb.degenerate hZ host)
  · exact hb
  · exact ha
  · refine ha.binary hb fun x y z hx hy hz => ?_
    cases hz
    exact hZ.add hx hy

theorem YieldsIn.difference (ha : YieldsIn env setting Z a) (hb : YieldsIn env setting Z b) :
    YieldsIn env setting Z (Expr.difference a b) := by
  obtain ⟨x, y, rfl, rfl, h⟩ | ⟨x, -, -, h⟩ | ⟨y, -, -, h⟩ | h := difference_cases a b <;> rw [h]
  · exact yieldsIn_const_of hZ fun host => (ha.degenerate hZ host).sub (hb.degenerate hZ host)
  · exact hb.negate hZ
  · exact ha
  · refine ha.binary hb fun x y z hx hy hz => ?_
    cases hz
    exact hZ.sub hx hy

theorem YieldsIn.product_left (ha : YieldsIn env setting Z a) (b : Expr Float) :
    YieldsIn env setting Z (Expr.product a b) := by
  obtain ⟨x, y, rfl, rfl, h⟩ | ⟨x, -, -, h⟩ | ⟨x, rfl, hone, h⟩ | ⟨y, -, -, h⟩ | h :=
    product_cases a b <;> rw [h]
  · exact yieldsIn_const_of hZ fun host => (ha.degenerate hZ host).mul_left y
  · exact yieldsIn_zero hZ
  · -- one is not within the ideal
    rw [eq_one_of_beq hone] at ha
    intro host
    exact absurd (ha.degenerate hZ host rfl) (by decide)
  · exact ha
  · refine ha.binary (yieldsIn_any b) fun x y z hx _ hz => ?_
    cases hz
    exact hZ.mul_left hx y

theorem YieldsIn.product_right (a : Expr Float) (hb : YieldsIn env setting Z b) :
    YieldsIn env setting Z (Expr.product a b) := by
  obtain ⟨x, y, rfl, rfl, h⟩ | ⟨x, -, -, h⟩ | ⟨x, -, -, h⟩ | ⟨y, rfl, hone, h⟩ | h :=
    product_cases a b <;> rw [h]
  · exact yieldsIn_const_of hZ fun host => (hb.degenerate hZ host).mul_right x
  · exact yieldsIn_zero hZ
  · exact hb
  · rw [eq_one_of_beq hone] at hb
    intro host
    exact absurd (hb.degenerate hZ host rfl) (by decide)
  · refine (yieldsIn_any a).binary hb fun x y z _ hy hz => ?_
    cases hz
    exact hZ.mul_right x hy

theorem YieldsIn.quotient (ha : YieldsIn env setting Z a) (b : Expr Float) :
    YieldsIn env setting Z (Expr.quotient a b) := by
  obtain ⟨x, -, -, h⟩ | ⟨y, -, -, h⟩ | h := quotient_cases a b <;> rw [h]
  · exact yieldsIn_zero hZ
  · exact ha
  · refine ha.binary (yieldsIn_any b) fun x y z hx _ hz => ?_
    cases hz
    exact hZ.safeDivide hx y _

/-! ## Rules -/

theorem YieldsIn.constantPowerSlope (a : Expr Float) (exponent : Float)
    (hda : YieldsIn env setting Z da) :
    YieldsIn env setting Z (Expr.constantPowerSlope a exponent da) := by
  unfold Expr.constantPowerSlope
  split
  · exact yieldsIn_zero hZ
  · split
    · exact hda.product_right hZ _
    · split
      · exact hda.product_right hZ _
      · dsimp only
        split
        · exact (yieldsIn_zero hZ).cond (hda.product_right hZ _)
        · exact hda.product_right hZ _

theorem YieldsIn.powerSlope (a b : Expr Float) (hda : YieldsIn env setting Z da)
    (hdb : YieldsIn env setting Z db) : YieldsIn env setting Z (Expr.powerSlope a b da db) := by
  unfold Expr.powerSlope
  split
  · exact hda.constantPowerSlope hZ a _
  · exact ((hdb.product_left hZ _).sum hZ ((hda.product_right hZ b).quotient hZ a)).product_right
      hZ _

theorem YieldsIn.binarySlope (op : BinaryOp) (a b : Expr Float) (hda : YieldsIn env setting Z da)
    (hdb : YieldsIn env setting Z db) : YieldsIn env setting Z (Expr.binarySlope op a b da db) := by
  have hleft := hda.product_left hZ b
  have hright := hdb.product_right hZ a
  cases op with
  | add => exact hda.sum hZ hdb
  | sub => exact hda.difference hZ hdb
  | mul => exact hleft.sum hZ hright
  | div => exact (hleft.difference hZ hright).quotient hZ _
  | mod => exact hda.difference hZ (hdb.product_right hZ _)
  | pow => exact hda.powerSlope hZ a b hdb
  | lt | gt | le | ge | eq | ne | and | or | xor => exact yieldsIn_zero hZ

/--
**The slope by a variable that does not occur is within every ideal**: its value is zero, unless it
is not finite.
-/
theorem derive_absent_yieldsIn {t : FunctionTable Float} {c : NameComparison} {v : Variable}
    {e d : Expr Float} (habsent : e.dependsOn c v = false) (hd : derive t c v e = .ok d) :
    YieldsIn env setting Z d := by
  induction e using Expr.induction generalizing d with
  | const value =>
    rw [derive_const] at hd
    cases hd
    exact yieldsIn_zero hZ
  | var w =>
    rw [dependsOn] at habsent
    rw [derive_var, habsent] at hd
    cases hd
    exact yieldsIn_zero hZ
  | unary op operand ih =>
    rw [dependsOn] at habsent
    cases op with
    | plus =>
      rw [derive_plus] at hd
      exact ih habsent hd
    | minus =>
      obtain ⟨da, hda, rfl⟩ := derive_minus_eq_ok hd
      exact (ih habsent hda).negate hZ
    | not =>
      rw [derive_not] at hd
      cases hd
      exact yieldsIn_zero hZ
  | binary op left right ihl ihr =>
    rw [dependsOn, Bool.or_eq_false_iff] at habsent
    obtain ⟨-, rfl⟩ | ⟨-, da, db, hda, hdb, rfl⟩ := derive_binary_eq_ok hd
    · exact yieldsIn_zero hZ
    · exact (ihl habsent.1 hda).binarySlope hZ op left right (ihr habsent.2 hdb)
  | cond condition whenTrue whenFalse ihc iht ihf =>
    simp only [dependsOn, Bool.or_eq_false_iff] at habsent
    obtain ⟨dt, df, hdt, hdf, rfl⟩ := derive_cond_eq_ok hd
    have htrue := iht habsent.1.2 hdt
    have hfalse := ihf habsent.2 hdf
    obtain ⟨x, y, -, -, -, h⟩ | h := conditionalSlope_cases condition dt df <;> rw [h]
    · exact htrue
    · exact htrue.cond hfalse
  | call name arguments ih =>
    rw [dependsOn] at habsent
    obtain ⟨-, rfl⟩ | ⟨hdepends, -⟩ := derive_call_eq_ok hd
    · exact yieldsIn_zero hZ
    · cases habsent.symm.trans hdepends
  | ext name arguments ih =>
    obtain ⟨-, rfl⟩ := derive_ext_eq_ok hd
    exact yieldsIn_zero hZ

end CircuitExpr.Expr
