import Mathlib
import CircuitExpr.Proofs.Behavior.Verdicts
import CircuitExpr.Proofs.Evaluation.Yields
import CircuitExpr.Proofs.Program.Simulation
import CircuitExpr.Proofs.Simplify.Neutral

/-!
# Simplified expressions are as simple as they get

Both passes work from the inside out, and a step looks at operands that have been simplified
already. So a second run finds nothing to do, neither of folding nor of dropping neutral parts,
and no conditional with a constant condition is left by folding.

In the real domain folding leaves no operators on constants at all, save where a value is
undefined: such a value equals nothing, itself included, and is not written as a constant. What
counts is the parts that evaluation comes to, `Expr.Visits`. A value that a conditional does not
choose may be undefined.

## Main statements

* `foldConstants_idempotent`, `dropNeutral_idempotent` — a second run changes nothing
* `not_part_foldConstants` — conditions of a folded expression are not constant
* `exists_foldConstants_eq_const` — a constant expression folds to its value
* `foldConstants_complete` — all of this
-/

namespace CircuitExpr.Expr

open Run Scalar

/-! ## Parts of an expression -/

section Parts

variable {K : Type}

/-- The expression itself, its direct parts, their direct parts, and so on. -/
inductive Part : Expr K → Expr K → Prop where
  | self (e : Expr K) : Part e e
  | child {a direct e : Expr K} (hdirect : direct ∈ e.children) (h : Part a direct) : Part a e

theorem part_iff {a e : Expr K} : Part a e ↔ a = e ∨ ∃ direct ∈ e.children, Part a direct := by
  constructor
  · intro h
    cases h with
    | self => exact .inl rfl
    | child hdirect h => exact .inr ⟨_, hdirect, h⟩
  · rintro (rfl | ⟨direct, hdirect, h⟩)
    · exact .self a
    · exact .child hdirect h

/-- What is neither the whole nor a part of a child is no part. -/
theorem not_part_of_children {a e : Expr K} (hne : a ≠ e) (h : ∀ direct ∈ e.children, ¬ Part a direct) :
    ¬ Part a e := by
  rw [part_iff]
  rintro (heq | ⟨direct, hdirect, hpart⟩)
  · exact hne heq
  · exact h direct hdirect hpart

/-- Nothing but the constant is a part of a constant. -/
theorem not_part_const {x y : K} {whenTrue whenFalse : Expr K} :
    ¬ Part (.cond (.const x) whenTrue whenFalse) (.const y) :=
  not_part_of_children (by rintro ⟨⟩) (List.forall_mem_nil _)

variable {D σ : Type} [Literal K] [Scalar D K]

/--
Evaluating an expression from a state of the host comes to evaluating a part of it, from the state
that the host has then.
-/
inductive Visits (env : Environment K D σ) (setting : Setting D) :
    Expr K → σ → Expr K → σ → Prop where
  | self (e : Expr K) (host : σ) : Visits env setting e host e host
  | operand (op : UnaryOp) {operand a : Expr K} {host host' : σ}
      (h : Visits env setting operand host a host') :
      Visits env setting (.unary op operand) host a host'
  | left (op : BinaryOp) {left a : Expr K} (right : Expr K) {host host' : σ}
      (h : Visits env setting left host a host') :
      Visits env setting (.binary op left right) host a host'
  | right (op : BinaryOp) {left right a : Expr K} {host host₁ host' : σ} {x : D}
      (hleft : (evaluate env setting left).outcome host = (.ok x, host₁))
      (h : Visits env setting right host₁ a host') :
      Visits env setting (.binary op left right) host a host'
  | condition {condition a : Expr K} (whenTrue whenFalse : Expr K) {host host' : σ}
      (h : Visits env setting condition host a host') :
      Visits env setting (.cond condition whenTrue whenFalse) host a host'
  | whenTrue {condition whenTrue a : Expr K} (whenFalse : Expr K) {host host₁ host' : σ} {x : D}
      (hcondition : (evaluate env setting condition).outcome host = (.ok x, host₁))
      (hx : isTrue x = true) (h : Visits env setting whenTrue host₁ a host') :
      Visits env setting (.cond condition whenTrue whenFalse) host a host'
  | whenFalse {condition whenFalse a : Expr K} (whenTrue : Expr K) {host host₁ host' : σ} {x : D}
      (hcondition : (evaluate env setting condition).outcome host = (.ok x, host₁))
      (hx : isTrue x = false) (h : Visits env setting whenFalse host₁ a host') :
      Visits env setting (.cond condition whenTrue whenFalse) host a host'
  | callArgument {name : String} {d : FunctionDefinition K} {before after : List (Expr K)}
      {argument a : Expr K} {host host₁ host' : σ} {values : List D}
      (hd : env.functions.resolve name (before ++ argument :: after).length = .ok d)
      (hbefore : (evaluateEach env setting before).outcome host = (.ok values, host₁))
      (h : Visits env setting argument host₁ a host') :
      Visits env setting (.call name (before ++ argument :: after)) host a host'
  | extArgument {name : String} {before after : List (Expr K)} {argument a : Expr K}
      {host host₁ host' : σ} {values : List D} (hhandler : env.extension.isSome = true)
      (hbefore : (evaluateEach env setting before).outcome host = (.ok values, host₁))
      (h : Visits env setting argument host₁ a host') :
      Visits env setting (.ext name (before ++ argument :: after)) host a host'

/-- No part that evaluation comes to has an undefined value, that is one that differs from itself. -/
def Defined (env : Environment K D σ) (setting : Setting D) (host : σ) (e : Expr K) : Prop :=
  ∀ a host' x host'', Visits env setting e host a host' →
    (evaluate env setting a).outcome host' = (.ok x, host'') → (x == x) = true

end Parts

/-! ## Simplifying twice -/

section Twice

variable {K : Type} [Literal K]

omit [Literal K] in
theorem map_twice {es : List (Expr K)} {f : Expr K → Expr K} (h : ∀ e ∈ es, f (f e) = f e) :
    (es.map f).map f = es.map f := by
  rw [List.map_map]
  exact List.map_congr_left h

/-- **Folding a folded expression changes nothing.** -/
theorem foldConstants_idempotent (D : Type) [Scalar D K] (tolerances : Tolerances K)
    (e : Expr K) :
    (e.foldConstants D tolerances).foldConstants D tolerances = e.foldConstants D tolerances := by
  induction e using Expr.induction with
  | const | var => rw [foldConstants, foldConstants]
  | unary op operand ih =>
    rw [foldConstants]
    obtain hkept | ⟨x, -, hfolded, -⟩ := foldUnary_cases D op (operand.foldConstants D tolerances)
    · rw [hkept, foldConstants, ih, hkept]
    · rw [hfolded, foldConstants]
  | binary op left right ihl ihr =>
    rw [foldConstants]
    obtain hkept | ⟨x, y, value, -, -, -, hfolded, -⟩ := foldBinary_cases D tolerances op
      (left.foldConstants D tolerances) (right.foldConstants D tolerances)
    · rw [hkept, foldConstants, ihl, ihr, hkept]
    · rw [hfolded, foldConstants]
  | cond condition whenTrue whenFalse ihc iht ihf =>
    rw [foldConstants]
    cases hx : (condition.foldConstants D tolerances).constant? with
    | some x =>
      dsimp only
      split
      · exact iht
      · exact ihf
    | none =>
      dsimp only
      rw [foldConstants, ihc, iht, ihf, hx]
  | call name arguments ih | ext name arguments ih =>
    rw [foldConstants, foldConstants, foldEach_eq_map, foldEach_eq_map, map_twice ih]

/-- **Dropping neutral parts a second time changes nothing.** -/
theorem dropNeutral_idempotent (e : Expr K) : e.dropNeutral.dropNeutral = e.dropNeutral := by
  induction e using Expr.induction with
  | const | var => rw [dropNeutral, dropNeutral]
  | unary op operand ih => rw [dropNeutral, dropNeutral, ih]
  | binary op left right ihl ihr =>
    rw [dropNeutral]
    obtain hkept | ⟨z, -, hdropped, -⟩ | ⟨z, -, hdropped, -⟩ :=
      dropNeutralBinary_cases op left.dropNeutral right.dropNeutral
    · rw [hkept, dropNeutral, ihl, ihr, hkept]
    · rw [hdropped, ihl]
    · rw [hdropped, ihr]
  | cond condition whenTrue whenFalse ihc iht ihf =>
    rw [dropNeutral, dropNeutral, ihc, iht, ihf]
  | call name arguments ih | ext name arguments ih =>
    rw [dropNeutral, dropNeutral, dropNeutralEach_eq_map, dropNeutralEach_eq_map, map_twice ih]

/-! ## Conditions -/

/-- **Folding decides every conditional whose condition is constant.** -/
theorem not_part_foldConstants (D : Type) [Scalar D K] (tolerances : Tolerances K) (x : K)
    (yes no e : Expr K) :
    ¬ Part (.cond (.const x) yes no) (e.foldConstants D tolerances) := by
  induction e using Expr.induction with
  | const value =>
    rw [foldConstants]
    exact not_part_const
  | var v =>
    rw [foldConstants]
    exact not_part_of_children (by rintro ⟨⟩) (List.forall_mem_nil _)
  | unary op operand ih =>
    rw [foldConstants]
    obtain hkept | ⟨y, -, hfolded, -⟩ := foldUnary_cases D op (operand.foldConstants D tolerances)
    · rw [hkept]
      exact not_part_of_children (by rintro ⟨⟩) (List.forall_mem_singleton.mpr ih)
    · rw [hfolded]
      exact not_part_const
  | binary op left right ihl ihr =>
    rw [foldConstants]
    obtain hkept | ⟨_, _, _, -, -, -, hfolded, -⟩ := foldBinary_cases D tolerances op
      (left.foldConstants D tolerances) (right.foldConstants D tolerances)
    · rw [hkept]
      exact not_part_of_children (by rintro ⟨⟩)
        (List.forall_mem_cons.mpr ⟨ihl, List.forall_mem_singleton.mpr ihr⟩)
    · rw [hfolded]
      exact not_part_const
  | cond condition whenTrue whenFalse ihc iht ihf =>
    rw [foldConstants]
    cases hy : (condition.foldConstants D tolerances).constant? with
    | some y =>
      dsimp only
      split
      · exact iht
      · exact ihf
    | none =>
      dsimp only
      refine not_part_of_children (fun h => ?_) (List.forall_mem_cons.mpr
        ⟨ihc, List.forall_mem_cons.mpr ⟨iht, List.forall_mem_singleton.mpr ihf⟩⟩)
      -- the condition would be a constant
      obtain ⟨hcondition, -, -⟩ := Expr.cond.inj h
      rw [← hcondition] at hy
      cases hy
  | call name arguments ih | ext name arguments ih =>
    rw [foldConstants, foldEach_eq_map]
    exact not_part_of_children (by rintro ⟨⟩) (List.forall_mem_map.mpr ih)

end Twice

/-! ## Constant expressions -/

section Constant

variable {K D σ : Type} [Literal K] [Scalar D K] {env : Environment K D σ} {setting : Setting D}
  {host : σ}

theorem Defined.value {e : Expr K} {x : D} (h : e.Defined env setting host)
    (hx : Yields env setting host e x) : (x == x) = true :=
  h e host x host (.self e host) hx

theorem Defined.operand {op : UnaryOp} {operand : Expr K}
    (h : (Expr.unary op operand).Defined env setting host) : operand.Defined env setting host :=
  fun a host' x host'' ha => h a host' x host'' (.operand op ha)

theorem Defined.left {op : BinaryOp} {left right : Expr K}
    (h : (Expr.binary op left right).Defined env setting host) : left.Defined env setting host :=
  fun a host' x host'' ha => h a host' x host'' (.left op right ha)

theorem Defined.right {op : BinaryOp} {left right : Expr K} {x : D}
    (h : (Expr.binary op left right).Defined env setting host)
    (hleft : Yields env setting host left x) : right.Defined env setting host :=
  fun a host' y host'' ha => h a host' y host'' (.right op hleft ha)

theorem Defined.condition {condition whenTrue whenFalse : Expr K}
    (h : (Expr.cond condition whenTrue whenFalse).Defined env setting host) :
    condition.Defined env setting host :=
  fun a host' x host'' ha => h a host' x host'' (.condition whenTrue whenFalse ha)

theorem Defined.chosen {condition whenTrue whenFalse : Expr K} {x : D}
    (h : (Expr.cond condition whenTrue whenFalse).Defined env setting host)
    (hcondition : Yields env setting host condition x) :
    (if isTrue x then whenTrue else whenFalse : Expr K).Defined env setting host := by
  intro a host' y host'' ha
  refine h a host' y host'' ?_
  split at ha
  · next htrue => exact .whenTrue whenFalse hcondition htrue ha
  · next hfalse => exact .whenFalse whenTrue hcondition (Bool.eq_false_iff.mpr hfalse) ha

/-! ### Defined form by form -/

theorem defined_const {x : K} (h : ((ofReal x : D) == ofReal x) = true) :
    (Expr.const x).Defined env setting host := by
  intro a host' y host'' ha hy
  cases ha
  cases (yields_const x).symm.trans hy
  exact h

theorem Defined.binary {op : BinaryOp} {left right : Expr K}
    (hleft : left.Defined env setting host)
    (hright : ∀ x host', (evaluate env setting left).outcome host = (.ok x, host') →
      right.Defined env setting host')
    (hvalue : ∀ z host', (evaluate env setting (.binary op left right)).outcome host =
      (.ok z, host') → (z == z) = true) :
    (Expr.binary op left right).Defined env setting host := by
  intro a host' y host'' ha hy
  cases ha with
  | self => exact hvalue y host'' hy
  | left _ _ ha => exact hleft a host' y host'' ha hy
  | right _ hx ha => exact hright _ _ hx a host' y host'' ha hy

/-- The value of a conditional is that of the one that is chosen. -/
theorem Defined.cond {condition whenTrue whenFalse : Expr K}
    (hcondition : condition.Defined env setting host)
    (hchosen : ∀ x host', (evaluate env setting condition).outcome host = (.ok x, host') →
      (if isTrue x then whenTrue else whenFalse : Expr K).Defined env setting host') :
    (Expr.cond condition whenTrue whenFalse).Defined env setting host := by
  intro a host' y host'' ha hy
  cases ha with
  | self =>
    rw [evaluate] at hy
    obtain ⟨x, host₁, hx, hy⟩ := outcome_bind_eq_ok.mp hy
    have hvalue := hchosen x host₁ hx
    rw [← apply_ite (evaluate env setting)] at hy
    exact hvalue _ host₁ y host'' (.self _ _) hy
  | condition _ _ ha => exact hcondition a host' y host'' ha hy
  | whenTrue _ hx htrue ha =>
    have hvalue := hchosen _ _ hx
    rw [if_pos htrue] at hvalue
    exact hvalue a host' y host'' ha hy
  | whenFalse _ hx hfalse ha =>
    have hvalue := hchosen _ _ hx
    rw [if_neg (Bool.eq_false_iff.mp hfalse)] at hvalue
    exact hvalue a host' y host'' ha hy

end Constant

section Real

variable {K σ : Type} [RealFunctions K] {env : Environment K K σ} {setting : Setting K} {host : σ}

/-- A number that equals itself is written as a constant. -/
theorem literal?_eq_some {x : K} (h : (x == x) = true) : literal? K x = some (.const x) := if_pos h

theorem foldUnary_const {op : UnaryOp} {x : K} (h : (op.apply x == op.apply x) = true) :
    foldUnary K op (.const x) = .const (op.apply x) := by
  show (literal? K (op.apply x)).getD _ = _
  rw [literal?_eq_some h, Option.getD_some]

theorem foldBinary_const {tolerances : Tolerances K} {op : BinaryOp} {x y z : K}
    (hz : op.apply tolerances x y = .ok z) (h : (z == z) = true) :
    foldBinary K tolerances op (.const x) (.const y) = .const z := by
  have hreal : op.apply tolerances (ofReal x : K) (ofReal y) = .ok z := hz
  unfold foldBinary
  simp only [constant?, hreal, literal?_eq_some h, Option.getD_some]

/-- **A constant expression folds to its value**, if no value on the way to it is undefined. -/
theorem exists_foldConstants_eq_const {e : Expr K} (he : e.isConstant = true)
    (h : e.Defined env setting host) :
    ∃ x, Yields env setting host e x ∧ e.foldConstants K env.tolerances = .const x := by
  induction e using Expr.induction with
  | const value => exact ⟨value, yields_const value, by rw [foldConstants]⟩
  | var | call | ext => rw [isConstant] at he; cases he
  | unary op operand ih =>
    rw [isConstant] at he
    obtain ⟨x, hx, hfold⟩ := ih he h.operand
    have hvalue := hx.unary op
    refine ⟨op.apply x, hvalue, ?_⟩
    rw [foldConstants, hfold, foldUnary_const (h.value hvalue)]
  | binary op left right ihl ihr =>
    rw [isConstant, Bool.and_eq_true] at he
    obtain ⟨x, hx, hfoldl⟩ := ihl he.1 h.left
    obtain ⟨y, hy, hfoldr⟩ := ihr he.2 (h.right hx)
    obtain ⟨z, hz⟩ :=
      BinaryOp.exists_apply_eq_ok comparesOrdered_real (lacks_real op) env.tolerances x y
    have hvalue := hx.binary hy hz
    refine ⟨z, hvalue, ?_⟩
    rw [foldConstants, hfoldl, hfoldr, foldBinary_const hz (h.value hvalue)]
  | cond condition whenTrue whenFalse ihc iht ihf =>
    rw [isConstant, Bool.and_eq_true, Bool.and_eq_true] at he
    obtain ⟨x, hx, hfold⟩ := ihc he.1.1 h.condition
    have hchosen := h.chosen hx
    rw [foldConstants, hfold]
    show ∃ y, _ ∧ (if isTrue x then _ else _) = _
    -- the value that is chosen, here as in evaluation
    cases hflag : (isTrue x : Bool) with
    | true =>
      rw [hflag] at hchosen
      obtain ⟨y, hy, hfoldy⟩ := iht he.1.2 hchosen
      exact ⟨y, hx.cond (by rwa [hflag]), hfoldy⟩
    | false =>
      rw [hflag] at hchosen
      obtain ⟨y, hy, hfoldy⟩ := ihf he.2 hchosen
      exact ⟨y, hx.cond (by rwa [hflag]), hfoldy⟩

/--
**Folding is complete, and neither pass has anything to do a second time.** In every domain a
folded expression is folded to itself and has no conditional with a constant condition; without
neutral parts there are none to drop. In the real domain an expression of operators and constants
folds to the constant that is its value, if evaluation comes to no undefined value.
-/
theorem foldConstants_complete (tolerances : Tolerances K) (e : Expr K) :
    (∀ (D : Type) [Scalar D K],
      (e.foldConstants D tolerances).foldConstants D tolerances = e.foldConstants D tolerances ∧
      ∀ x yes no, ¬ Part (.cond (.const x) yes no) (e.foldConstants D tolerances)) ∧
    e.dropNeutral.dropNeutral = e.dropNeutral ∧
    (e.isConstant = true → ∀ {σ : Type} (env : Environment K K σ) (setting : Setting K) (host : σ),
      env.tolerances = tolerances → e.Defined env setting host →
      ∃ x, Yields env setting host e x ∧ e.foldConstants K tolerances = .const x) := by
  refine ⟨fun D _ => ⟨foldConstants_idempotent D tolerances e, fun x yes no => ?_⟩,
    dropNeutral_idempotent e, ?_⟩
  · exact not_part_foldConstants D tolerances x yes no e
  · rintro he σ env setting host rfl h
    exact exists_foldConstants_eq_const he h

end Real

/-- A condition that holds, in front of two values of which the other one is undefined. -/
def decided : Expr Float :=
  .cond (.binary .gt (.const 2) (.const 1)) (.binary .add (.const 1) (.const 2)) (.const (0 / 0))

theorem decided_defined (setting : Setting Float) (host : Nat) :
    decided.Defined .metered setting host := by
  have hone : ((1 : Float) == 1) = true := by decide +kernel
  have htwo : ((2 : Float) == 2) = true := by decide +kernel
  have hsum : ((1 : Float) + 2 == 1 + 2) = true := by decide +kernel
  have hgreater : Yields .metered setting host
      (.binary .gt (.const 2) (.const 1) : Expr Float) 1 :=
    (yields_const 2).binary (yields_const 1) rfl
  have hholds : (isTrue (1 : Float) : Bool) = true := by decide +kernel
  refine .cond ?_ fun x host' hx => ?_
  · refine .binary (defined_const htwo) (fun _ _ _ => defined_const hone) fun z host' hz => ?_
    cases hgreater.symm.trans hz
    exact hone
  · cases hgreater.symm.trans hx
    rw [if_pos hholds]
    refine .binary (defined_const hone) (fun _ _ _ => defined_const htwo) fun z host' hz => ?_
    cases ((yields_const 1).binary (yields_const 2) rfl).symm.trans hz
    exact hsum

/-- Over doubles, with a value that is not chosen and has none. -/
theorem foldConstants_complete_decided :
    decided.isConstant = true ∧ ∀ (setting : Setting Float) (host : Nat),
      decided.Defined .metered setting host ∧
      ∃ x, Yields .metered setting host decided x ∧
        decided.foldConstants Float .default = .const x := by
  refine ⟨rfl, fun setting host => ⟨decided_defined setting host, ?_⟩⟩
  exact (foldConstants_complete .default decided).2.2 rfl .metered setting host rfl
    (decided_defined setting host)

end CircuitExpr.Expr
