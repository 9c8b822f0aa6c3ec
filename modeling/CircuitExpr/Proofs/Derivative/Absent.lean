import Mathlib
import CircuitExpr.Proofs.Derivative.Constructors
import CircuitExpr.Proofs.Numeric.Zeros

/-!
# Derivatives with respect to absent variables

A variable that does not occur in an expression has the slope zero, and differentiation always
finds an expression for it. That this is the constant zero, and not an expression that happens
to have the value zero, depends on the constants:

* a constant that is multiplied with a slope, as an operand of a product or a quotient or as the
  base of a square, has to stay finite: an infinite or undefined constant times zero is
  undefined;
* a power with a constant exponent below one other than zero guards its slope against the base
  zero by a conditional, even where the slope is zero.

Apart from these two the slope folds away, at any depth.

## Main statements

* `binarySlope_zero` — when one operation between operands of slope zero has the slope zero
* `derive_absent` — when the derivative of an expression is the constant zero
* `derive_root_absent` — the slope of a square root is a conditional instead
-/

namespace CircuitExpr

/-! ## Where a slope of zero stays zero -/

namespace Expr

open Binary64

/-- Whether an expression is a finite constant, or none. -/
def isMild (e : Expr Float) : Bool :=
  match e.constant? with
  | some x => x.isFinite
  | none => true

/-- Whether a power with a constant exponent has the slope zero if its base has. -/
def exponentKeepsZero (base : Expr Float) (y : Float) : Bool :=
  if y == 0 then true
  else if y == 1 then true
  else if y == 2.0 then (base.constant?.map fun x => (2.0 * x).isFinite).getD true
  else !(y < 1)

/-- Whether an operation has the slope zero if its operands have. -/
def keepsZero (op : BinaryOp) (left right : Expr Float) : Bool :=
  match op with
  | .mul | .div => left.isMild && right.isMild
  | .pow => (right.constant?.map left.exponentKeepsZero).getD true
  | _ => true

/-- Whether all operations whose slopes are computed keep the slope zero. -/
def isSettled : Expr Float → Bool
  | .unary .plus operand | .unary .minus operand => isSettled operand
  | .binary op left right =>
    op.isLogical || (isSettled left && isSettled right && keepsZero op left right)
  | .cond _ whenTrue whenFalse => isSettled whenTrue && isSettled whenFalse
  | _ => true

/-- The parts whose slopes are computed when no variable of the expression is derived by. -/
def slopeParts {K : Type} : Expr K → List (Expr K)
  | .unary .plus operand => .unary .plus operand :: slopeParts operand
  | .unary .minus operand => .unary .minus operand :: slopeParts operand
  | .binary op left right =>
    .binary op left right :: if op.isLogical then [] else slopeParts left ++ slopeParts right
  | .cond condition whenTrue whenFalse =>
    .cond condition whenTrue whenFalse :: (slopeParts whenTrue ++ slopeParts whenFalse)
  | e => [e]

/-- The derivative is the constant zero, of either sign. -/
def Vanishes {K : Type} [Literal K] (t : FunctionTable K) (c : NameComparison) (v : Variable)
    (e : Expr K) : Prop :=
  ∃ z, derive t c v e = .ok (.const z) ∧ (z == 0) = true

/-! ### One operation -/

section Step

variable {z w : Float} {a b : Expr Float}

theorem isValue_const (x : Float) : (Expr.const x).isValue 0 = (x == 0) := rfl

theorem product_zero_left_of_open (hz : (z == 0) = true) (hb : b.constant? = none) :
    product (.const z) b = zero := by
  simp [product, hb, hz]

theorem product_zero_right_of_open (ha : a.constant? = none) (hw : (w == 0) = true) :
    product a (.const w) = zero := by
  simp [product, ha, hw]

theorem product_zero_left (hz : (z == 0) = true) (b : Expr Float) :
    ∃ p, product (.const z) b = .const p ∧ ZeroIf b.isMild p := by
  unfold isMild
  cases hb : b.constant? with
  | some y =>
    obtain rfl := constant?_eq_some.mp hb
    exact ⟨z * y, rfl, zeroIf_zero_mul y hz⟩
  | none => exact ⟨0, product_zero_left_of_open hz hb, rfl⟩

theorem product_zero_right (a : Expr Float) (hw : (w == 0) = true) :
    ∃ p, product a (.const w) = .const p ∧ ZeroIf a.isMild p := by
  unfold isMild
  cases ha : a.constant? with
  | some x =>
    obtain rfl := constant?_eq_some.mp ha
    exact ⟨x * w, rfl, zeroIf_mul_zero x hw⟩
  | none => exact ⟨0, product_zero_right_of_open ha hw, rfl⟩

/-- Two products with zero, which make up the slope of a product or quotient. -/
theorem productSlopes_zero (hz : (z == 0) = true) (hw : (w == 0) = true) (a b : Expr Float) :
    ∃ p q, product (.const z) b = .const p ∧ product a (.const w) = .const q ∧
      ZeroIf b.isMild p ∧ ZeroIf a.isMild q := by
  obtain ⟨p, hp, hpzero⟩ := product_zero_left hz b
  obtain ⟨q, hq, hqzero⟩ := product_zero_right a hw
  exact ⟨p, q, hp, hq, hpzero, hqzero⟩

theorem quotient_isValue_zero (x : Float) (b : Expr Float) :
    (quotient (.const x) b).isValue 0 = (x == 0) := by
  unfold quotient
  rw [isValue_const]
  split
  · next hx => rw [hx]; rfl
  · next hx =>
    rw [Bool.not_eq_true] at hx
    split
    · exact isValue_const x
    · rw [hx]; rfl

theorem remainderSlope_zero (a b : Expr Float) (hz : (z == 0) = true) (hw : (w == 0) = true) :
    (remainderSlope a b (.const z) (.const w)).isValue 0 = true := by
  -- the truncated quotient is a product of calls, so it is no constant
  have hproduct : ∀ ratio : Expr Float,
      product (product (LibraryFunction.of .sgn [ratio])
        (LibraryFunction.of .floor [LibraryFunction.of .abs [ratio]])) (.const w) = zero :=
    fun ratio => product_zero_right_of_open rfl hw
  simp only [remainderSlope, hproduct]
  exact sub_zeros_beq hz (y := 0) rfl

/-- The slope of a power with any other exponent is built on a product that is no constant. -/
theorem product_const_power {y : Float} (h0 : (y == 0) = false) (h1 : (y == 1) = false)
    (a b : Expr Float) : product (.const y) (.binary .pow a b) =
      .binary .mul (.const y) (.binary .pow a b) := by
  have hopen : (Expr.binary .pow a b).constant? = none := rfl
  simp [product, hopen, h0, h1]

theorem product_two (ha : a.constant? = none) :
    product (.const 2.0) a = .binary .mul (.const 2.0) a := by
  have h0 : ((2.0 : Float) == 0) = false := by decide
  have h1 : ((2.0 : Float) == 1) = false := by decide
  simp [product, ha, h0, h1]

theorem squareSlope_zero (a : Expr Float) (hz : (z == 0) = true) :
    (product (product (.const 2.0) a) (.const z)).isValue 0 =
      (a.constant?.map fun x => (2.0 * x).isFinite).getD true := by
  cases ha : a.constant? with
  | some x =>
    obtain rfl := constant?_eq_some.mp ha
    exact (zeroIf_mul_zero (2.0 * x) hz).beq_zero_eq
  | none =>
    rw [product_two ha, product_zero_right_of_open rfl hz]
    rfl

theorem constantPowerSlope_zero (a : Expr Float) (y : Float) (hz : (z == 0) = true) :
    (constantPowerSlope a y (.const z)).isValue 0 = a.exponentKeepsZero y := by
  unfold constantPowerSlope exponentKeepsZero
  by_cases h0 : (y == 0) = true
  · rw [if_pos h0, if_pos h0]
    rfl
  rw [if_neg h0, if_neg h0]
  by_cases h1 : (y == 1) = true
  · -- a sign is no constant
    rw [if_pos h1, if_pos h1, product_zero_right_of_open rfl hz]
    rfl
  rw [if_neg h1, if_neg h1]
  by_cases h2 : (y == 2.0) = true
  · rw [if_pos h2, if_pos h2, squareSlope_zero a hz]
  have hterm : product (product (product (.const y) (.binary .pow a (.const (y - 1))))
      (LibraryFunction.of .sgn [a])) (.const z) = zero := by
    rw [product_const_power (Bool.eq_false_iff.mpr h0) (Bool.eq_false_iff.mpr h1)]
    exact product_zero_right_of_open rfl hz
  rw [if_neg h2, if_neg h2]
  simp only [hterm]
  by_cases hbelow : y < 1
  · rw [if_pos hbelow, decide_eq_true hbelow]
    rfl
  · rw [if_neg hbelow, decide_eq_false hbelow]
    rfl

theorem powerSlope_zero (a b : Expr Float) (hz : (z == 0) = true) (hw : (w == 0) = true) :
    (powerSlope a b (.const z) (.const w)).isValue 0 = keepsZero .pow a b := by
  rw [keepsZero]
  cases hb : b.constant? with
  | some y =>
    obtain rfl := constant?_eq_some.mp hb
    exact constantPowerSlope_zero a y hz
  | none =>
    -- neither the logarithm nor the exponent nor the power is a constant
    have hexponent : product (.const w) (LibraryFunction.of .log [LibraryFunction.of .abs [a]]) =
        zero := product_zero_left_of_open hw rfl
    have hbase : quotient (product b (.const z)) a = zero := by
      rw [product_zero_right_of_open hb hz]
      rfl
    have hpower : product (.binary .pow a b) (.const (0 + 0)) = zero :=
      product_zero_right_of_open rfl rfl
    have hslope : powerSlope a b (.const z) (.const w) = zero := by
      simp only [powerSlope, hb, hexponent, hbase]
      exact hpower
    rw [hslope]
    rfl

/-- Operands with the slope zero give the slope zero exactly where the operator keeps it. -/
theorem binarySlope_zero {op : BinaryOp} (hop : op.isLogical = false) (a b : Expr Float)
    (hz : (z == 0) = true) (hw : (w == 0) = true) :
    (binarySlope op a b (.const z) (.const w)).isValue 0 = keepsZero op a b := by
  obtain ⟨p, q, hp, hq, hpzero, hqzero⟩ := productSlopes_zero hz hw a b
  cases op with
  | add => exact add_zeros_beq hz hw
  | sub => exact sub_zeros_beq hz hw
  | mul =>
    simp only [binarySlope, hp, hq, keepsZero]
    rw [Bool.and_comm]
    exact (hpzero.add hqzero).beq_zero_eq
  | div =>
    simp only [binarySlope, hp, hq, keepsZero]
    rw [Bool.and_comm]
    exact (quotient_isValue_zero (p - q) _).trans (hpzero.sub hqzero).beq_zero_eq
  | mod => exact remainderSlope_zero a b hz hw
  | pow => exact powerSlope_zero a b hz hw
  | lt | gt | le | ge | eq | ne | and | or | xor => exact absurd hop (by decide)

/-- Values of equal constants are not chosen between. -/
theorem conditionalSlope_zero (condition : Expr Float) (hz : (z == 0) = true)
    (hw : (w == 0) = true) : conditionalSlope condition (.const z) (.const w) = .const z := by
  have hequal : (z == w) = true := ((alike_zero hz).beq_eq (alike_zero hw)).trans rfl
  simp [conditionalSlope, hequal]

end Step

/-! ### Expressions -/

section Absent

variable {t : FunctionTable Float} {c : NameComparison} {v : Variable}

theorem self_mem_slopeParts {K : Type} (e : Expr K) : e ∈ e.slopeParts := by
  cases e with
  | unary op operand => cases op <;> simp [slopeParts]
  | _ => simp [slopeParts]

/-- Differentiation finds an expression for the slope. -/
theorem exists_derive_of_absent {K : Type} [Literal K] {t : FunctionTable K} {e : Expr K}
    (habsent : e.dependsOn c v = false) : ∃ d, derive t c v e = .ok d := by
  induction e using Expr.induction with
  | const value => exact ⟨_, derive_const t c v value⟩
  | var w => exact ⟨_, derive_var t c v w⟩
  | unary op operand ih =>
    rw [dependsOn] at habsent
    obtain ⟨d, hd⟩ := ih habsent
    cases op with
    | plus => exact ⟨d, by rw [derive_plus, hd]⟩
    | minus => exact ⟨_, derive_minus_eq hd⟩
    | not => exact ⟨_, derive_not t c v operand⟩
  | binary op left right ihl ihr =>
    rw [dependsOn, Bool.or_eq_false_iff] at habsent
    cases hop : op.isLogical with
    | true => exact ⟨_, derive_logical_eq hop⟩
    | false =>
      obtain ⟨da, hda⟩ := ihl habsent.1
      obtain ⟨db, hdb⟩ := ihr habsent.2
      exact ⟨_, derive_binary_eq hop hda hdb⟩
  | cond condition whenTrue whenFalse ihc iht ihf =>
    simp only [dependsOn, Bool.or_eq_false_iff] at habsent
    obtain ⟨dt, hdt⟩ := iht habsent.1.2
    obtain ⟨df, hdf⟩ := ihf habsent.2
    exact ⟨_, derive_cond_eq hdt hdf⟩
  | call name arguments ih =>
    rw [dependsOn] at habsent
    exact ⟨_, derive_call_of_absent habsent⟩
  | ext name arguments ih =>
    rw [dependsOn] at habsent
    exact ⟨zero, by simp [derive_ext, habsent]⟩

/-- A derivative that vanishes is the constant zero. -/
theorem vanishes_iff_isValue {e d : Expr Float} (hd : derive t c v e = .ok d) :
    Vanishes t c v e ↔ d.isValue 0 = true := by
  rw [isValue_eq_true]
  constructor
  · rintro ⟨z, hz, hzero⟩
    cases hd.symm.trans hz
    exact ⟨z, rfl, hzero⟩
  · rintro ⟨z, rfl, hzero⟩
    exact ⟨z, hd, hzero⟩

/-- Between operands whose derivatives vanish, that of an operation vanishes if it is kept. -/
theorem vanishes_binary_iff {op : BinaryOp} {left right : Expr Float}
    (hop : op.isLogical = false) (hleft : Vanishes t c v left) (hright : Vanishes t c v right) :
    Vanishes t c v (.binary op left right) ↔ keepsZero op left right = true := by
  obtain ⟨z, hz, hzzero⟩ := hleft
  obtain ⟨w, hw, hwzero⟩ := hright
  rw [vanishes_iff_isValue (derive_binary_eq hop hz hw), binarySlope_zero hop _ _ hzzero hwzero]

theorem Vanishes.unary {op : UnaryOp} {operand : Expr Float} (h : Vanishes t c v operand) :
    Vanishes t c v (.unary op operand) := by
  obtain ⟨z, hz, hzero⟩ := h
  cases op with
  | plus => exact ⟨z, by rw [derive_plus, hz], hzero⟩
  | minus => exact ⟨-z, derive_minus_eq hz, neg_zero_beq hzero⟩
  | not => exact ⟨0, derive_not t c v operand, rfl⟩

theorem Vanishes.cond {condition whenTrue whenFalse : Expr Float}
    (htrue : Vanishes t c v whenTrue) (hfalse : Vanishes t c v whenFalse) :
    Vanishes t c v (.cond condition whenTrue whenFalse) := by
  obtain ⟨z, hz, hzzero⟩ := htrue
  obtain ⟨w, hw, hwzero⟩ := hfalse
  exact ⟨z, by rw [derive_cond_eq hz hw, conditionalSlope_zero _ hzzero hwzero], hzzero⟩

/-- Where the derivative vanishes anyway, only the parts behind the first are asked about. -/
theorem forall_cons_iff {e : Expr Float} {parts : List (Expr Float)}
    (h : (∀ s ∈ parts, Vanishes t c v s) → Vanishes t c v e) :
    (∀ s ∈ e :: parts, Vanishes t c v s) ↔ ∀ s ∈ parts, Vanishes t c v s := by
  rw [List.forall_mem_cons]
  exact and_iff_right_of_imp h

/-- The slopes computed on the way vanish exactly where all operations keep zeros. -/
theorem vanish_iff_isSettled {e : Expr Float} (habsent : e.dependsOn c v = false) :
    (∀ s ∈ e.slopeParts, Vanishes t c v s) ↔ e.isSettled = true := by
  have root {x : Expr Float} (h : ∀ s ∈ x.slopeParts, Vanishes t c v s) : Vanishes t c v x :=
    h x (self_mem_slopeParts x)
  have leaf {x : Expr Float} (hx : derive t c v x = .ok zero) :
      ∀ s ∈ [x], Vanishes t c v s := by
    intro s hs
    rw [List.mem_singleton.mp hs]
    exact ⟨0, hx, rfl⟩
  induction e using Expr.induction with
  | const value => exact iff_of_true (leaf (derive_const t c v value)) rfl
  | var w =>
    rw [dependsOn] at habsent
    exact iff_of_true (leaf (by simp [derive_var, habsent])) rfl
  | unary op operand ih =>
    rw [dependsOn] at habsent
    cases op with
    | plus | minus =>
      rw [slopeParts, isSettled, forall_cons_iff fun h => (root h).unary]
      exact ih habsent
    | not => exact iff_of_true (leaf (derive_not t c v operand)) rfl
  | binary op left right ihl ihr =>
    rw [dependsOn, Bool.or_eq_false_iff] at habsent
    rw [slopeParts, isSettled]
    cases hop : op.isLogical with
    | true => exact iff_of_true (leaf (derive_logical_eq hop)) rfl
    | false =>
      have hl : (∀ s ∈ left.slopeParts, Vanishes t c v s) ↔ left.isSettled = true :=
        ihl habsent.1
      have hr : (∀ s ∈ right.slopeParts, Vanishes t c v s) ↔ right.isSettled = true :=
        ihr habsent.2
      rw [if_neg (by decide), List.forall_mem_cons, List.forall_mem_append, Bool.false_or,
        Bool.and_eq_true, Bool.and_eq_true, ← hl, ← hr]
      -- the slopes of both operands vanish, so what is left to ask is the operator
      constructor
      · rintro ⟨hself, hleft, hright⟩
        exact ⟨⟨hleft, hright⟩, (vanishes_binary_iff hop (root hleft) (root hright)).mp hself⟩
      · rintro ⟨⟨hleft, hright⟩, hkeeps⟩
        exact ⟨(vanishes_binary_iff hop (root hleft) (root hright)).mpr hkeeps, hleft, hright⟩
  | cond condition whenTrue whenFalse ihc iht ihf =>
    simp only [dependsOn, Bool.or_eq_false_iff] at habsent
    have ht : (∀ s ∈ whenTrue.slopeParts, Vanishes t c v s) ↔ whenTrue.isSettled = true :=
      iht habsent.1.2
    have hf : (∀ s ∈ whenFalse.slopeParts, Vanishes t c v s) ↔ whenFalse.isSettled = true :=
      ihf habsent.2
    rw [slopeParts, isSettled, forall_cons_iff, List.forall_mem_append, Bool.and_eq_true, ht, hf]
    intro h
    rw [List.forall_mem_append] at h
    exact (root h.1).cond (root h.2)
  | call name arguments ih =>
    rw [dependsOn] at habsent
    exact iff_of_true (leaf (derive_call_of_absent habsent)) rfl
  | ext name arguments ih =>
    rw [dependsOn] at habsent
    exact iff_of_true (leaf (by simp [derive_ext, habsent])) rfl

/--
**The derivative with respect to a variable that does not occur always exists. It is the constant
zero where every operation keeps a slope of zero**, and all slopes computed on the way are that
constant only there.
-/
theorem derive_absent {e : Expr Float} (habsent : e.dependsOn c v = false) :
    (∃ d, derive t c v e = .ok d) ∧
      (e.isSettled = true → ∃ z, derive t c v e = .ok (.const z) ∧ (z == 0) = true) ∧
      ((∀ s ∈ e.slopeParts, ∃ z, derive t c v s = .ok (.const z) ∧ (z == 0) = true) ↔
        e.isSettled = true) := by
  have hiff : (∀ s ∈ e.slopeParts, Vanishes t c v s) ↔ e.isSettled = true :=
    vanish_iff_isSettled habsent
  exact ⟨exists_derive_of_absent habsent, fun h => hiff.mpr h e (self_mem_slopeParts e), hiff⟩

/-- A conditional between products and calls of `x`, by `y`. -/
theorem derive_absent_sample :
    let x : Expr Float := .var (.voltage "x")
    let e : Expr Float := .cond (.binary .gt x (.const 0)) (.binary .mul (.const 3) (.call "sin" [x]))
      (.unary .minus (.binary .pow x (.const 2.0)))
    e.dependsOn .caseInsensitive (.voltage "y") = false ∧ e.isSettled = true ∧
      ∃ z, derive .library .caseInsensitive (.voltage "y") e = .ok (.const z) ∧
        (z == 0) = true := by
  intro x e
  have habsent : e.dependsOn .caseInsensitive (.voltage "y") = false := by decide
  have hsettled : e.isSettled = true := by decide
  exact ⟨habsent, hsettled, (derive_absent habsent).2.1 hsettled⟩

/-- The slope of the square root of `x` by `y` is a conditional. -/
theorem derive_root_absent :
    let root : Expr Float := .binary .pow (.var (.voltage "x")) (.const 0.5)
    root.dependsOn .caseInsensitive (.voltage "y") = false ∧
      derive .library .caseInsensitive (.voltage "y") root =
        .ok (.cond (.binary .eq (.var (.voltage "x")) zero) zero zero) ∧
      ¬ ∃ z, derive .library .caseInsensitive (.voltage "y") root = .ok (.const z) ∧
        (z == 0) = true := by
  intro root
  have hderive : derive .library .caseInsensitive (.voltage "y") root =
      .ok (.cond (.binary .eq (.var (.voltage "x")) zero) zero zero) := rfl
  refine ⟨by decide, hderive, ?_⟩
  rintro ⟨z, hz, -⟩
  exact nomatch hderive.symm.trans hz

end Absent

end Expr

end CircuitExpr
