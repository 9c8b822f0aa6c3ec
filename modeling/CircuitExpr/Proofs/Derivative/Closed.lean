import Mathlib
import CircuitExpr.Proofs.Derivative.Constructors

/-!
# Properties that derivatives inherit

A derivative is put together from parts of the expression by folding constructors, comparisons
for equality and calls of the library. A property of expressions that all of these keep is
`Closed`, and then the rules of differentiation keep it as well. Which functions of the library
may be called is left open: the rules of operators call four of them, those of functions any.

## Main statements

* `Closed` — a property that folding constructors keep
* `Closed.binarySlope`, `Closed.conditionalSlope`, `Closed.chain` — the rules of operators,
  conditionals and calls
* `Closed.rule` — the slopes of a function of the library
-/

namespace CircuitExpr

open CircuitExpr.Expr LibraryFunction

variable {K : Type} [Literal K] {F : LibraryFunction → Prop} {S : Expr K → Prop}
  {a b c da db x y : Expr K} {es : List (Expr K)}

/--
A property of expressions that is kept by whatever the rules of differentiation put together. Of
the library only the functions `F` need to keep it. A minus sign may be dropped, so it must not
matter to the property.
-/
structure Closed (F : LibraryFunction → Prop) (S : Expr K → Prop) : Prop where
  const : ∀ value, S (.const value)
  minus : ∀ {a}, S (.unary .minus a) ↔ S a
  binary : ∀ {op : BinaryOp} {a b}, op.isOrdering = false → S a → S b → S (.binary op a b)
  cond : ∀ {c a b}, S c → S a → S b → S (.cond c a b)
  call : ∀ {f : LibraryFunction} {es}, F f → f.arity.accepts es.length = true →
    (∀ e ∈ es, S e) → S (of f es)
  /-- What the rules of operators call. -/
  own : F .sgn ∧ F .abs ∧ F .floor ∧ F .log

namespace Closed

variable (hS : Closed F S)
include hS

/-! ## Constructors -/

theorem zero : S Expr.zero := hS.const 0

theorem one : S Expr.one := hS.const 1

theorem negate (ha : S a) : S (negate a) := by
  obtain ⟨_, -, h⟩ | ⟨inner, rfl, h⟩ | h := negate_cases a
  · rw [h]
    exact hS.const _
  · rw [h]
    exact hS.minus.mp ha
  · rw [h]
    exact hS.minus.mpr ha

theorem sum (ha : S a) (hb : S b) : S (sum a b) := by
  obtain ⟨_, _, -, -, h⟩ | ⟨_, -, -, h⟩ | ⟨_, -, -, h⟩ | h := sum_cases a b <;> rw [h]
  · exact hS.const _
  · exact hb
  · exact ha
  · exact hS.binary rfl ha hb

theorem difference (ha : S a) (hb : S b) : S (difference a b) := by
  obtain ⟨_, _, -, -, h⟩ | ⟨_, -, -, h⟩ | ⟨_, -, -, h⟩ | h := difference_cases a b <;> rw [h]
  · exact hS.const _
  · exact hS.negate hb
  · exact ha
  · exact hS.binary rfl ha hb

theorem product (ha : S a) (hb : S b) : S (product a b) := by
  obtain ⟨_, _, -, -, h⟩ | ⟨_, -, -, h⟩ | ⟨_, -, -, h⟩ | ⟨_, -, -, h⟩ | h := product_cases a b <;>
    rw [h]
  · exact hS.const _
  · exact hS.zero
  · exact hb
  · exact ha
  · exact hS.binary rfl ha hb

theorem quotient (ha : S a) (hb : S b) : S (quotient a b) := by
  obtain ⟨_, -, -, h⟩ | ⟨_, -, -, h⟩ | h := quotient_cases a b <;> rw [h]
  · exact hS.zero
  · exact ha
  · exact hS.binary rfl ha hb

omit [Literal K] in
theorem power (ha : S a) (hb : S b) : S (.binary .pow a b) := hS.binary rfl ha hb

theorem foldl_product {factor : Expr K → Expr K} (ha : S a) (hes : ∀ e ∈ es, S (factor e)) :
    S (es.foldl (fun p e => Expr.product p (factor e)) a) := by
  induction es generalizing a with
  | nil => exact ha
  | cons e rest ih =>
    rw [List.foldl_cons]
    exact ih (hS.product ha (hes e (by simp))) fun e he => hes e (by simp [he])

omit [Literal K] in
/-- A function of one argument. -/
theorem of_single {f : LibraryFunction} (hf : F f) (h : f.arity.accepts 1 = true) (hx : S x) :
    S (of f [x]) :=
  hS.call hf h (List.forall_mem_singleton.mpr hx)

omit [Literal K] in
/-- The logarithm of the distance from zero. -/
theorem logarithm (hx : S x) : S (of .log [of .abs [x]]) := by
  obtain ⟨-, habs, -, hlog⟩ := hS.own
  exact hS.of_single hlog rfl (hS.of_single habs rfl hx)

/-! ## Slopes of operators -/

theorem remainderSlope (ha : S a) (hb : S b) (hda : S da) (hdb : S db) :
    S (remainderSlope a b da db) := by
  obtain ⟨hsgn, habs, hfloor, -⟩ := hS.own
  have hratio := hS.quotient ha hb
  have hwhole := hS.of_single hfloor rfl (hS.of_single habs rfl hratio)
  exact hS.difference hda (hS.product (hS.product (hS.of_single hsgn rfl hratio) hwhole) hdb)

theorem constantPowerSlope (exponent : K) (ha : S a) (hda : S da) :
    S (constantPowerSlope a exponent da) := by
  have hsign := hS.of_single hS.own.1 rfl ha
  have hreduced := hS.product (hS.const exponent) (hS.power ha (hS.const (exponent - 1)))
  have hterm := hS.product (hS.product hreduced hsign) hda
  unfold Expr.constantPowerSlope
  split
  · exact hS.zero
  · split
    · exact hS.product hsign hda
    · split
      · exact hS.product (hS.product (hS.const 2.0) ha) hda
      · dsimp only
        split
        · exact hS.cond (hS.binary rfl ha hS.zero) hS.zero hterm
        · exact hterm

theorem powerSlope (ha : S a) (hb : S b) (hda : S da) (hdb : S db) :
    S (powerSlope a b da db) := by
  unfold Expr.powerSlope
  split
  · exact hS.constantPowerSlope _ ha hda
  · exact hS.product (hS.power ha hb)
      (hS.sum (hS.product hdb (hS.logarithm ha)) (hS.quotient (hS.product hb hda) ha))

/-- **The slope of an operation** has the property if its operands and their slopes do. -/
theorem binarySlope (op : BinaryOp) (ha : S a) (hb : S b) (hda : S da) (hdb : S db) :
    S (binarySlope op a b da db) := by
  unfold Expr.binarySlope
  cases op with
  | add => exact hS.sum hda hdb
  | sub => exact hS.difference hda hdb
  | mul => exact hS.sum (hS.product hda hb) (hS.product ha hdb)
  | div =>
    exact hS.quotient (hS.difference (hS.product hda hb) (hS.product ha hdb)) (hS.product hb hb)
  | mod => exact hS.remainderSlope ha hb hda hdb
  | pow => exact hS.powerSlope ha hb hda hdb
  | _ => exact hS.zero

theorem conditionalSlope (hc : S c) (ha : S a) (hb : S b) : S (conditionalSlope c a b) := by
  obtain ⟨_, _, -, -, -, h⟩ | h := conditionalSlope_cases c a b <;> rw [h]
  · exact ha
  · exact hS.cond hc ha hb

/-- The chain rule adds up products of slopes. -/
theorem chain {partials slopes : List (Expr K)} (hp : ∀ e ∈ partials, S e)
    (hs : ∀ e ∈ slopes, S e) : S (chain partials slopes) := by
  refine List.foldlRecOn _ _ (motive := S) hS.zero ?_
  intro total htotal term hterm
  obtain ⟨hpartial, hslope⟩ := List.of_mem_zip hterm
  split
  · exact htotal
  · exact hS.sum htotal (hS.product (hp _ hpartial) (hs _ hslope))

end Closed

/-! ## Slopes of functions -/

namespace Closed

variable (hS : Closed (fun _ => True) S)
include hS

omit [Literal K] in
theorem step (hx : S x) : S (step x) := hS.of_single trivial rfl hx

theorem noStep (hx : S x) : S (noStep x) := hS.difference hS.one (hS.step hx)

theorem circleHeight (hx : S x) : S (circleHeight x) :=
  hS.of_single trivial rfl (hS.difference hS.one (hS.product hx hx))

theorem selectionSlopes {beats : Expr K → Expr K → Expr K} {earlier : List (Expr K)}
    (hbeats : ∀ x y, S x → S y → S (beats x y)) (hearlier : ∀ e ∈ earlier, S e)
    (hes : ∀ e ∈ es, S e) : ∀ e ∈ selectionSlopes beats earlier es, S e := by
  induction es generalizing earlier with
  | nil =>
    rw [LibraryFunction.selectionSlopes]
    exact List.forall_mem_nil _
  | cons x later ih =>
    obtain ⟨hx, hlater⟩ := List.forall_mem_cons.mp hes
    rw [LibraryFunction.selectionSlopes, List.forall_mem_cons]
    constructor
    · have hfirst := hS.foldl_product hS.one fun y hy => hbeats x y hx (hearlier y hy)
      exact hS.foldl_product hfirst fun y hy =>
        hS.difference hS.one (hbeats y x (hlater y hy) hx)
    · refine ih ?_ hlater
      rw [List.forall_mem_append, List.forall_mem_singleton]
      exact ⟨hearlier, hx⟩

theorem powerSlopes (hes : ∀ e ∈ es, S e) : ∀ e ∈ powerSlopes es, S e := by
  unfold LibraryFunction.powerSlopes
  split
  · simp only [List.forall_mem_cons] at hes ⊢
    obtain ⟨hbase, hexponent, -⟩ := hes
    have hreduced := hS.power hbase (hS.difference hexponent hS.one)
    exact ⟨hS.product (hS.product hexponent hreduced) (hS.of_single trivial rfl hbase),
      hS.product (hS.power hbase hexponent) (hS.logarithm hbase), nofun⟩
  · exact nofun

theorem signedPowerSlopes (hes : ∀ e ∈ es, S e) : ∀ e ∈ signedPowerSlopes es, S e := by
  unfold LibraryFunction.signedPowerSlopes
  split
  · simp only [List.forall_mem_cons] at hes ⊢
    obtain ⟨hbase, hexponent, -⟩ := hes
    have hsigned : S (of .pwr [_, _]) :=
      hS.call trivial rfl
        (List.forall_mem_cons.mpr ⟨hbase, List.forall_mem_singleton.mpr hexponent⟩)
    have hreduced := hS.power hbase (hS.difference hexponent hS.one)
    exact ⟨hS.product hexponent hreduced, hS.product hsigned (hS.logarithm hbase), nofun⟩
  · exact nofun

theorem clampSlopes (hes : ∀ e ∈ es, S e) : ∀ e ∈ clampSlopes es, S e := by
  unfold LibraryFunction.clampSlopes
  split
  · simp only [List.forall_mem_cons] at hes ⊢
    obtain ⟨hx, hlow, hhigh, -⟩ := hes
    have habove := hS.step (hS.difference hx hlow)
    exact ⟨hS.product habove (hS.noStep (hS.difference hx hhigh)),
      hS.noStep (hS.difference hx hlow),
      hS.product habove (hS.step (hS.difference hx hhigh)), nofun⟩
  · exact nofun

/-- **The slopes of a function of the library** have the property if its arguments do. -/
theorem rule (f : LibraryFunction) (hes : ∀ e ∈ es, S e) : ∀ e ∈ f.rule es, S e := by
  -- most rules give the slope of each argument by itself
  have map_slope {slope : Expr K → Expr K} (hslope : ∀ x, S x → S (slope x)) :
      ∀ e ∈ es.map slope, S e :=
    List.forall_mem_map.mpr fun x hx => hslope x (hes x hx)
  cases f with
  | sgn | floor | ceil | round | u => exact map_slope fun _ _ => hS.zero
  | abs | exp | sin | sinh | cosh => exact map_slope fun _ hx => hS.of_single trivial rfl hx
  | sqrt => exact map_slope fun _ hx => hS.quotient (hS.const _) (hS.of_single trivial rfl hx)
  | log | ln => exact map_slope fun _ hx => hS.quotient hS.one hx
  | log10 => exact map_slope fun _ hx => hS.quotient hS.one (hS.product hx (hS.const _))
  | cos => exact map_slope fun _ hx => hS.negate (hS.of_single trivial rfl hx)
  | tan =>
    refine map_slope fun _ hx => ?_
    have hcos := hS.of_single (f := .cos) trivial rfl hx
    exact hS.quotient hS.one (hS.product hcos hcos)
  | asin => exact map_slope fun _ hx => hS.quotient hS.one (hS.circleHeight hx)
  | acos => exact map_slope fun _ hx => hS.quotient (hS.const _) (hS.circleHeight hx)
  | atan => exact map_slope fun _ hx => hS.quotient hS.one (hS.sum hS.one (hS.product hx hx))
  | tanh =>
    refine map_slope fun _ hx => ?_
    have htanh := hS.of_single (f := .tanh) trivial rfl hx
    exact hS.difference hS.one (hS.product htanh htanh)
  | min => exact hS.selectionSlopes (fun _ _ hx hy => hS.step (hS.difference hy hx)) nofun hes
  | max => exact hS.selectionSlopes (fun _ _ hx hy => hS.step (hS.difference hx hy)) nofun hes
  | pow => exact hS.powerSlopes hes
  | pwr => exact hS.signedPowerSlopes hes
  | limit => exact hS.clampSlopes hes

end Closed

end CircuitExpr
