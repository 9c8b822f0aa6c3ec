import Mathlib
import CircuitExpr.Proofs.Evaluation.Recording
import CircuitExpr.Simplify.Optimize

/-!
# Similar numbers

Simplifying does not keep values bit by bit: a zero may lose its sign. What it keeps is said with
a relation `V` of similar numbers, and this module says what is asked of such a relation, and of
an expression whose evaluation is to respect it.

## Contents

* `Scalar.Similarity` — an equivalence that the operations respect; powers, which a domain may
  take by way of other functions, are apart in `Scalar.PowerRespects`
* `Scalar.NeutralZero`, `Scalar.NeutralOne`, `Scalar.Writable` — what dropping neutral parts and
  writing a value as a constant need
* `Expr.Respectful` — the operators and functions in an expression respect similar numbers
* `Expr.Plain` — no part is left to the host
-/

namespace CircuitExpr

/-! ## Relations of numbers -/

namespace Scalar

variable {D K : Type} [Literal K] [Scalar D K]

/-- An equivalence that all operations other than powers respect. -/
structure Similarity (V : D → D → Prop) : Prop where
  equivalence : Equivalence V
  neg : ∀ {x x'}, V x x' → V (-x) (-x')
  add : ∀ {x x' y y'}, V x x' → V y y' → V (x + y) (x' + y')
  sub : ∀ {x x' y y'}, V x x' → V y y' → V (x - y) (x' - y')
  mul : ∀ {x x' y y'}, V x x' → V y y' → V (x * y) (x' * y')
  safeDivide : ∀ {x x' y y'} (fudge : K), V x x' → V y y' →
    V (Scalar.safeDivide x y fudge) (Scalar.safeDivide x' y' fudge)
  modulo : ∀ {x x' y y'}, V x x' → V y y' → V (Scalar.modulo x y) (Scalar.modulo x' y')
  isTrue : ∀ {x x'}, V x x' → (Scalar.isTrue x : Bool) = Scalar.isTrue x'
  fuzzyEquals : ∀ {x x' y y'} (tolerances : Tolerances K), V x x' → V y y' →
    Scalar.fuzzyEquals x y tolerances = Scalar.fuzzyEquals x' y' tolerances
  compare : ∀ {op x x' y y'}, op.isOrdering = true → V x x' → V y y' →
    Scalar.compare op x y = Scalar.compare op x' y'

/-- Powers of similar numbers are similar. -/
def PowerRespects (V : D → D → Prop) : Prop :=
  ∀ x x' y y', V x x' → V y y' → V (Scalar.power x y) (Scalar.power x' y')

/-- Adding or subtracting a constant that equals zero makes no difference. -/
structure NeutralZero (V : D → D → Prop) : Prop where
  add_zero : ∀ (z : K) (x : D), (z == 0) = true → V (x + ofReal z) x
  zero_add : ∀ (z : K) (x : D), (z == 0) = true → V (ofReal z + x) x
  sub_zero : ∀ (z : K) (x : D), (z == 0) = true → V (x - ofReal z) x

/-- Multiplying by a constant that equals one makes no difference. -/
structure NeutralOne (V : D → D → Prop) : Prop where
  mul_one : ∀ (u : K) (x : D), (u == 1) = true → V (x * ofReal u) x
  one_mul : ∀ (u : K) (x : D), (u == 1) = true → V (ofReal u * x) x

/-- A number that equals its real part is similar to it. -/
def Writable (V : D → D → Prop) : Prop :=
  ∀ x : D, (ofReal (real x) == x) = true → V x (ofReal (real x))

namespace Similarity

variable {V : D → D → Prop}

theorem refl (hV : Similarity V) (x : D) : V x x := hV.equivalence.refl x

theorem symm (hV : Similarity V) {x y : D} (h : V x y) : V y x := hV.equivalence.symm h

theorem trans (hV : Similarity V) {x y z : D} (h : V x y) (h' : V y z) : V x z :=
  hV.equivalence.trans h h'

theorem unary (hV : Similarity V) (op : UnaryOp) : op.Respects V := by
  intro x x' hx
  cases op with
  | plus => exact hx
  | minus => exact hV.neg hx
  | not =>
    simp only [UnaryOp.apply, hV.isTrue hx]
    exact hV.refl _

theorem binary (hV : Similarity V) (tolerances : Tolerances K) {op : BinaryOp} (hop : op ≠ .pow) :
    op.Respects V tolerances := by
  intro x x' y y' hx hy
  cases op with
  | add => exact .ok (hV.add hx hy)
  | sub => exact .ok (hV.sub hx hy)
  | mul => exact .ok (hV.mul hx hy)
  | div => exact .ok (hV.safeDivide _ hx hy)
  | mod => exact .ok (hV.modulo hx hy)
  | pow => exact absurd rfl hop
  | eq | ne =>
    simp only [BinaryOp.apply, hV.fuzzyEquals tolerances hx hy]
    exact .ok (hV.refl _)
  | and | or | xor =>
    simp only [BinaryOp.apply, hV.isTrue hx, hV.isTrue hy]
    exact .ok (hV.refl _)
  | lt | gt | le | ge =>
    rw [BinaryOp.apply, hV.compare _ hx hy]
    · exact .refl hV.refl _
    · rfl

theorem binary_of_power (hV : Similarity V) (hpower : PowerRespects V)
    (tolerances : Tolerances K) (op : BinaryOp) : op.Respects V tolerances := by
  by_cases hop : op = .pow
  · subst hop
    exact fun x x' y y' hx hy => .ok (hpower x x' y y' hx hy)
  · exact hV.binary tolerances hop

end Similarity

end Scalar

/-! ## Conditions on expressions -/

namespace Expr

theorem constant?_eq_some {K : Type} {e : Expr K} {value : K} :
    e.constant? = some value ↔ e = .const value := by
  cases e <;> simp [constant?]

theorem isValue_eq_true {K : Type} [BEq K] {e : Expr K} {value : K} :
    e.isValue value = true ↔ ∃ x, e = .const x ∧ (x == value) = true := by
  cases e <;> simp [isValue, constant?]

variable {K D σ : Type} [Literal K] [Scalar D K]

/-- All operators and functions in an expression respect `V`, the functions of a host also `S`. -/
inductive Respectful (env : Environment K D σ) (V : D → D → Prop) (S : σ → σ → Prop) :
    Expr K → Prop where
  | const (value : K) : Respectful env V S (.const value)
  | var (v : Variable) : Respectful env V S (.var v)
  | unary (op : UnaryOp) {operand : Expr K} (h : Respectful env V S operand) :
      Respectful env V S (.unary op operand)
  | binary {op : BinaryOp} {left right : Expr K} (hop : op.Respects V env.tolerances)
      (hleft : Respectful env V S left) (hright : Respectful env V S right) :
      Respectful env V S (.binary op left right)
  | cond {condition whenTrue whenFalse : Expr K} (hcondition : Respectful env V S condition)
      (htrue : Respectful env V S whenTrue) (hfalse : Respectful env V S whenFalse) :
      Respectful env V S (.cond condition whenTrue whenFalse)
  | call {name : String} {arguments : List (Expr K)}
      (hnative : ∀ d, env.functions.resolve name arguments.length = .ok d →
        Native.Respects V S arguments.length (env.natives d.native) (env.natives d.native))
      (h : ∀ e ∈ arguments, Respectful env V S e) : Respectful env V S (.call name arguments)
  | ext (name : String) {arguments : List (Expr K)} (h : ∀ e ∈ arguments, Respectful env V S e) :
      Respectful env V S (.ext name arguments)

/-- No part of an expression is left to the host. -/
inductive Plain : Expr K → Prop where
  | const (value : K) : Plain (.const value)
  | var (v : Variable) : Plain (.var v)
  | unary (op : UnaryOp) {operand : Expr K} (h : Plain operand) : Plain (.unary op operand)
  | binary (op : BinaryOp) {left right : Expr K} (hleft : Plain left) (hright : Plain right) :
      Plain (.binary op left right)
  | cond {condition whenTrue whenFalse : Expr K} (hcondition : Plain condition)
      (htrue : Plain whenTrue) (hfalse : Plain whenFalse) :
      Plain (.cond condition whenTrue whenFalse)
  | call (name : String) {arguments : List (Expr K)} (h : ∀ e ∈ arguments, Plain e) :
      Plain (.call name arguments)

variable {env : Environment K D σ} {V : D → D → Prop} {S : σ → σ → Prop}

/-- Where all operators and functions respect similar numbers, all expressions do. -/
theorem respectful_of_forall (hop : ∀ op : BinaryOp, op.Respects V env.tolerances)
    (hnative : ∀ name count d, env.functions.resolve name count = .ok d →
      Native.Respects V S count (env.natives d.native) (env.natives d.native)) (e : Expr K) :
    e.Respectful env V S := by
  induction e using Expr.induction with
  | const value => exact .const value
  | var v => exact .var v
  | unary op operand ih => exact .unary op ih
  | binary op left right ihl ihr => exact .binary (hop op) ihl ihr
  | cond condition whenTrue whenFalse ihc iht ihf => exact .cond ihc iht ihf
  | call name arguments ih => exact .call (hnative name _) ih
  | ext name arguments ih => exact .ext name ih

end Expr

end CircuitExpr
