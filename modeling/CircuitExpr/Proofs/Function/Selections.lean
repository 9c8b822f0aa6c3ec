import Mathlib
import CircuitExpr.Proofs.Derivative.Constructors
import CircuitExpr.Proofs.Function.Library
import CircuitExpr.Proofs.Numeric.Ordered

/-!
# Slopes of selections

A selection is computed by going through its arguments and keeping the best one so far. Its slopes
are written without that: an argument is selected if it beats all earlier ones and is beaten by no
later one, and each of these conditions is a step of a difference. The two agree, because the first
of the least arguments is the only one of which all conditions hold.

## Main statements

* `IsFirstLeast` — the first of the least items of a list; `exists_isFirstLeast_select` finds it
* `selectionFlags` — which arguments are selected, by comparing each with all others
* `Yields.stepDifference`, `Yields.flagProduct`, … — what the parts of the slopes yield
* `LibraryFunction.selections_one_hot` — one slope is one, that of the argument selected
-/

namespace CircuitExpr

open CircuitExpr.Expr LibraryFunction
open List (Forall₂)

/-! ## The first of the least -/

section Least

variable {D P : Type} [LinearOrder P] {key : D → P} {xs : List D} {i : Nat} {x y : D}

/-- The item at this place is less than all earlier ones, and not greater than any. -/
structure IsFirstLeast (key : D → P) (xs : List D) (i : Nat) (x : D) : Prop where
  getElem? : xs[i]? = some x
  earlier : ∀ j y, j < i → xs[j]? = some y → key x < key y
  least : ∀ y ∈ xs, key x ≤ key y

theorem isFirstLeast_singleton (key : D → P) (x : D) : IsFirstLeast key [x] 0 x where
  getElem? := rfl
  earlier _ _ h := absurd h (Nat.not_lt_zero _)
  least _ hy := by rw [List.mem_singleton.mp hy]

/-- One more item at the end is the first of the least if it is less than the one before. -/
theorem IsFirstLeast.concat (h : IsFirstLeast key xs i x) (y : D) :
    if key y < key x then IsFirstLeast key (xs ++ [y]) xs.length y
    else IsFirstLeast key (xs ++ [y]) i x := by
  have hlt : i < xs.length := (List.getElem?_eq_some_iff.mp h.getElem?).1
  split
  · next hyx =>
    refine ⟨List.getElem?_concat_length, fun j z hj hz => ?_, fun z hz => ?_⟩
    · rw [List.getElem?_append_left hj] at hz
      exact hyx.trans_le (h.least z (List.mem_of_getElem? hz))
    · rcases List.mem_append.mp hz with hz | hz
      · exact (hyx.trans_le (h.least z hz)).le
      · rw [List.mem_singleton.mp hz]
  · next hyx =>
    refine ⟨?_, fun j z hj hz => ?_, fun z hz => ?_⟩
    · rw [List.getElem?_append_left hlt, h.getElem?]
    · rw [List.getElem?_append_left (hj.trans hlt)] at hz
      exact h.earlier j z hj hz
    · rcases List.mem_append.mp hz with hz | hz
      · exact h.least z hz
      · rw [List.mem_singleton.mp hz]
        exact not_lt.mp hyx

variable {K : Type} [Literal K] [Scalar D K] {beats : D → D → Bool}

/-- **A selection takes the first of the least arguments**, if these are beaten by lesser ones. -/
theorem exists_isFirstLeast_select (hne : xs ≠ [])
    (hbeats : ∀ y ∈ xs, ∀ x ∈ xs, beats y x = true ↔ key y < key x) :
    ∃ i, IsFirstLeast key xs i (select beats xs) := by
  obtain ⟨first, rest, rfl⟩ := List.exists_cons_of_ne_nil hne
  induction rest using List.reverseRecOn with
  | nil => exact ⟨0, isFirstLeast_singleton key first⟩
  | append_singleton rest y ih =>
    have hsub : first :: rest ⊆ first :: (rest ++ [y]) := by simp
    obtain ⟨i, hi⟩ := ih (List.cons_ne_nil _ _) fun u hu v hv => hbeats u (hsub hu) v (hsub hv)
    have hmem := List.mem_of_getElem? hi.getElem?
    have hstep : select beats (first :: (rest ++ [y])) =
        if beats y (select beats (first :: rest)) then y else select beats (first :: rest) := by
      rw [select, List.foldl_append]
      rfl
    have hconcat := hi.concat y
    rw [hstep]
    by_cases hyx : key y < key (select beats (first :: rest))
    · rw [if_pos hyx] at hconcat
      rw [if_pos ((hbeats y (by simp) _ (hsub hmem)).mpr hyx)]
      exact ⟨_, hconcat⟩
    · rw [if_neg hyx] at hconcat
      rw [if_neg (mt (hbeats y (by simp) _ (hsub hmem)).mp hyx)]
      exact ⟨i, hconcat⟩

end Least

/-! ## Flags -/

section Flags

variable {D : Type} {beats : D → D → Bool}

/-- Whether an argument beats all earlier ones and is beaten by no later one, for each argument. -/
def selectionFlags (beats : D → D → Bool) : List D → List D → List Bool
  | _, [] => []
  | earlier, x :: later =>
    (earlier.all (beats x) && later.all fun y => !beats y x)
      :: selectionFlags beats (earlier ++ [x]) later

/-- One flag out of `n`. -/
def oneHot (n i : Nat) : List Bool := (List.range n).map fun j => j == i

theorem getElem?_selectionFlags (earlier later : List D) (j : Nat) :
    (selectionFlags beats earlier later)[j]? = later[j]?.map fun x =>
      (earlier ++ later.take j).all (beats x) && (later.drop (j + 1)).all fun y => !beats y x := by
  induction later generalizing earlier j with
  | nil => rfl
  | cons x later ih =>
    cases j with
    | zero => simp [selectionFlags]
    | succ j =>
      rw [selectionFlags, List.getElem?_cons_succ, ih, List.getElem?_cons_succ, List.take_succ_cons,
        List.drop_succ_cons, List.append_assoc, List.singleton_append]

/-- **The first of the least is the only argument that is selected.** -/
theorem IsFirstLeast.selectionFlags {P : Type} [LinearOrder P] {key : D → P} {xs : List D}
    {i : Nat} {x : D} (h : IsFirstLeast key xs i x)
    (hbeats : ∀ y ∈ xs, ∀ x ∈ xs, beats y x = true ↔ key y < key x) :
    CircuitExpr.selectionFlags beats [] xs = oneHot xs.length i := by
  refine List.ext_getElem? fun j => ?_
  rw [getElem?_selectionFlags, oneHot, List.getElem?_map, List.nil_append]
  cases hj : xs[j]? with
  | none =>
    rw [List.getElem?_eq_none (by simpa using List.getElem?_eq_none_iff.mp hj)]
    rfl
  | some y =>
    have hlt : j < xs.length := (List.getElem?_eq_some_iff.mp hj).1
    have hy := List.mem_of_getElem? hj
    rw [List.getElem?_range hlt, Option.map_some, Option.map_some, Option.some_inj,
      Bool.eq_iff_iff, Bool.and_eq_true, List.all_eq_true, List.all_eq_true, beq_iff_eq]
    have hx := List.mem_of_getElem? h.getElem?
    constructor
    · rintro ⟨hearlier, hlater⟩
      rcases lt_trichotomy j i with hji | rfl | hij
      · -- the first of the least comes later, and beats this argument
        have hmem : x ∈ xs.drop (j + 1) := by
          refine List.mem_iff_getElem?.mpr ⟨i - (j + 1), ?_⟩
          rw [List.getElem?_drop, Nat.add_sub_cancel' hji, h.getElem?]
        have hbeaten := (hbeats x hx y hy).mpr (h.earlier j y hji hj)
        exact absurd (hlater x hmem) (by simp [hbeaten])
      · rfl
      · have hmem : x ∈ xs.take j := by
          refine List.mem_iff_getElem?.mpr ⟨i, ?_⟩
          rw [List.getElem?_take_of_lt hij, h.getElem?]
        exact absurd ((hbeats y hy x hx).mp (hearlier x hmem)) (h.least y hy).not_gt
    · rintro rfl
      obtain rfl : x = y := Option.some.inj (h.getElem?.symm.trans hj)
      refine ⟨fun z hz => ?_, fun z hz => ?_⟩
      · obtain ⟨k, hk, rfl⟩ := List.mem_take_iff_getElem.mp hz
        have hki : k < j := (Nat.lt_min.mp hk).1
        exact (hbeats x hx _ (List.getElem_mem _)).mpr
          (h.earlier k _ hki (List.getElem?_eq_getElem _))
      · have hz := List.mem_of_mem_drop hz
        rw [Bool.not_eq_true', ← Bool.not_eq_true]
        exact fun hbeaten => ((hbeats z hz x hx).mp hbeaten).not_ge (h.least z hz)

end Flags

/-! ## What the parts of the slopes yield -/

section Parts

variable {K D F σ : Type} [Literal K] [Scalar D K] [AddCommGroup F] [LinearOrder F]
  {finite : K → Prop} {value : K → F} {env : Environment K D σ} {setting : Setting D} {host : σ}
  {a b : Expr K} {x y : D} {p q : Bool}

namespace Expr

/-- The expression yields a value with a finite real part. -/
def YieldsFinite (finite : K → Prop) (env : Environment K D σ) (setting : Setting D) (host : σ)
    (e : Expr K) (x : D) : Prop :=
  Yields env setting host e x ∧ finite (Scalar.real x)

/-- The negative, in front of an expression or folded into it, is positive below zero. -/
theorem YieldsFinite.negate [IsOrderedAddMonoid F] (hK : Literal.Ordered finite value)
    (hD : Scalar.Ordered D) (h : YieldsFinite finite env setting host a x) :
    ∃ z, Yields env setting host (negate a) z ∧
      (0 < Scalar.real z ↔ value (Scalar.real x) < 0) := by
  obtain ⟨hyields, hfinite⟩ := h
  -- a number whose negative is the value is positive where the value is below zero
  have hsign : ∀ z : K, finite z → value (Scalar.real x) = -value z →
      (0 < z ↔ value (Scalar.real x) < 0) := by
    intro z hz hneg
    rw [hK.lt_iff 0 z hK.finite_zero hz, hK.value_zero, hneg, Left.neg_neg_iff]
  have hminus : (0 < -Scalar.real x ↔ value (Scalar.real x) < 0) :=
    hsign _ ((hK.finite_neg _).mpr hfinite) (by rw [hK.value_neg _ hfinite, neg_neg])
  obtain ⟨u, rfl, hd⟩ | ⟨inner, rfl, hd⟩ | hd := negate_cases a <;> rw [hd]
  · refine ⟨_, yields_const _, ?_⟩
    rw [hD.real_ofReal]
    rw [← hyields.ofReal_eq, hD.real_ofReal] at hminus ⊢
    exact hminus
  · have hinner := hyields
    unfold Yields at hinner
    rw [evaluate, Run.outcome_bind_eq_ok] at hinner
    obtain ⟨z, host', hz, heq⟩ := hinner
    rw [Run.outcome_pure] at heq
    obtain ⟨hx, rfl⟩ := Prod.mk.inj heq
    obtain rfl : -z = x := Except.ok.inj hx
    rw [hD.real_neg] at hfinite hsign ⊢
    have hzfinite := (hK.finite_neg _).mp hfinite
    exact ⟨z, hz, hsign _ hzfinite (hK.value_neg _ hzfinite)⟩
  · refine ⟨_, hyields.unary .minus, ?_⟩
    show 0 < Scalar.real (-x) ↔ _
    rwa [hD.real_neg]

/-- The difference, folded or not, is positive where the first number is above the second. -/
theorem YieldsFinite.difference [IsOrderedAddMonoid F] (hK : Literal.Ordered finite value)
    (hD : Scalar.Ordered D) (ha : YieldsFinite finite env setting host a x)
    (hb : YieldsFinite finite env setting host b y) :
    ∃ z, Yields env setting host (difference a b) z ∧
      (0 < Scalar.real z ↔ value (Scalar.real y) < value (Scalar.real x)) := by
  have hsub := hK.sub_pos_iff _ _ ha.2 hb.2
  obtain ⟨u, w, rfl, rfl, hd⟩ | ⟨u, rfl, hzero, hd⟩ | ⟨w, rfl, hzero, hd⟩ | hd :=
    difference_cases a b <;> rw [hd]
  · refine ⟨_, yields_const _, ?_⟩
    rw [← ha.1.ofReal_eq, ← hb.1.ofReal_eq, hD.real_ofReal, hD.real_ofReal] at hsub
    rwa [hD.real_ofReal, ← ha.1.ofReal_eq, ← hb.1.ofReal_eq, hD.real_ofReal, hD.real_ofReal]
  · have hfinite := ha.2
    rw [← ha.1.ofReal_eq, hD.real_ofReal] at hfinite ⊢
    rw [hK.value_of_beq u hfinite hzero]
    exact hb.negate hK hD
  · have hfinite := hb.2
    rw [← hb.1.ofReal_eq, hD.real_ofReal] at hfinite ⊢
    refine ⟨x, ha.1, ?_⟩
    rw [hK.value_of_beq w hfinite hzero, hK.lt_iff _ _ hK.finite_zero ha.2, hK.value_zero]
  · refine ⟨_, ha.1.binary hb.1 rfl, ?_⟩
    show 0 < Scalar.real (x - y) ↔ _
    rwa [hD.real_sub]

/-- The step of a difference says which of two numbers is greater. -/
theorem YieldsFinite.stepDifference [IsOrderedAddMonoid F] (hK : Literal.Ordered finite value)
    (hD : Scalar.Ordered D) (henv : env.Standard) (ha : YieldsFinite finite env setting host a x)
    (hb : YieldsFinite finite env setting host b y) :
    Yields env setting host (step (Expr.difference a b))
      (Scalar.ofBool (decide (Scalar.real y < Scalar.real x))) := by
  obtain ⟨z, hz, hpos⟩ := ha.difference hK hD hb
  have hstep := henv.yields_of (f := .u) rfl (.cons hz .nil)
  have hflag : decide (Scalar.real z > 0) = decide (Scalar.real y < Scalar.real x) := by
    rw [Bool.eq_iff_iff, decide_eq_true_iff, decide_eq_true_iff, hK.lt_iff _ _ hb.2 ha.2]
    exact hpos
  rw [← hflag, ← hD.step]
  exact hstep

/-- A constant that yields a flag is the flag as a number. -/
theorem Yields.const_ofBool {u : K} (hD : Scalar.Ordered D)
    (h : Yields env setting host (.const u) (Scalar.ofBool p)) : u = Literal.ofBool p :=
  hD.ofReal_injective h.ofReal_eq

theorem ofBool_beq_zero (hK : Literal.Ordered finite value)
    (h : ((Literal.ofBool p : K) == 0) = true) : p = false := by
  cases p with
  | false => rfl
  | true => exact absurd h (by rw [Literal.ofBool, if_pos rfl, hK.one_ne_zero]; decide)

theorem ofBool_beq_one (hK : Literal.Ordered finite value)
    (h : ((Literal.ofBool p : K) == 1) = true) : p = true := by
  cases p with
  | true => rfl
  | false =>
    exact absurd h (by rw [Literal.ofBool, if_neg Bool.false_ne_true, hK.zero_ne_one]; decide)

/-- The product of flags says whether both hold. -/
theorem Yields.flagProduct (hK : Literal.Ordered finite value) (hD : Scalar.Ordered D)
    (ha : Yields env setting host a (Scalar.ofBool p))
    (hb : Yields env setting host b (Scalar.ofBool q)) :
    Yields env setting host (Expr.product a b) (Scalar.ofBool (p && q)) := by
  obtain ⟨u, w, rfl, rfl, hd⟩ | ⟨u, hu, hzero, hd⟩ | ⟨u, rfl, hone, hd⟩ | ⟨w, rfl, hone, hd⟩ | hd :=
    product_cases a b <;> rw [hd]
  · rw [ha.const_ofBool hD, hb.const_ofBool hD, hK.ofBool_mul]
    exact yields_const _
  · have hfalse : (p && q) = false := by
      rw [Bool.and_eq_false_iff]
      rcases hu with rfl | rfl
      · exact .inl (ofBool_beq_zero hK (by rwa [ha.const_ofBool hD] at hzero))
      · exact .inr (ofBool_beq_zero hK (by rwa [hb.const_ofBool hD] at hzero))
    rw [hfalse]
    exact yields_const _
  · rw [ha.const_ofBool hD] at hone
    rw [ofBool_beq_one hK hone, Bool.true_and]
    exact hb
  · rw [hb.const_ofBool hD] at hone
    rw [ofBool_beq_one hK hone, Bool.and_true]
    exact ha
  · rw [← hD.ofBool_mul]
    exact ha.binary hb rfl

/-- One less a flag says whether it does not hold. -/
theorem Yields.flagNot (hK : Literal.Ordered finite value) (hD : Scalar.Ordered D)
    (hb : Yields env setting host b (Scalar.ofBool q)) :
    Yields env setting host (Expr.difference one b) (Scalar.ofBool (!q)) := by
  obtain ⟨u, w, hu, rfl, hd⟩ | ⟨u, hu, hzero, -⟩ | ⟨w, rfl, hzero, hd⟩ | hd :=
    difference_cases one b
  · obtain rfl : 1 = u := const.inj hu
    rw [hd, hb.const_ofBool hD, hK.one_sub_ofBool]
    exact yields_const _
  · obtain rfl : 1 = u := const.inj hu
    exact absurd hzero (by rw [hK.one_ne_zero]; decide)
  · rw [hb.const_ofBool hD] at hzero
    rw [hd, ofBool_beq_zero hK hzero]
    exact yields_const _
  · rw [hd, ← hD.one_sub_ofBool]
    exact (yields_const 1).binary hb rfl

/-- A product of many flags says whether all of them hold. -/
theorem Yields.foldlProduct (hK : Literal.Ordered finite value) (hD : Scalar.Ordered D)
    {factor : Expr K → Expr K} {flag : D → Bool} {es : List (Expr K)} {xs : List D}
    (h : Forall₂ (fun e x => Yields env setting host (factor e) (Scalar.ofBool (flag x))) es xs)
    (ha : Yields env setting host a (Scalar.ofBool p)) :
    Yields env setting host (es.foldl (fun total e => Expr.product total (factor e)) a)
      (Scalar.ofBool (p && xs.all flag)) := by
  induction h generalizing a p with
  | nil => rwa [List.foldl_nil, List.all_nil, Bool.and_true]
  | cons hfirst _ ih =>
    rw [List.foldl_cons, List.all_cons, ← Bool.and_assoc]
    exact ih (ha.flagProduct hK hD hfirst)

/-- **The slopes of a selection yield its flags**, if single comparisons do. -/
theorem yields_selectionSlopes (hK : Literal.Ordered finite value) (hD : Scalar.Ordered D)
    {beats : Expr K → Expr K → Expr K} {wins : D → D → Bool}
    (hbeats : ∀ a b x y, YieldsFinite finite env setting host a x →
      YieldsFinite finite env setting host b y →
      Yields env setting host (beats a b) (Scalar.ofBool (wins x y)))
    {later : List (Expr K)} {ys : List D}
    (hlater : Forall₂ (YieldsFinite finite env setting host) later ys)
    {earlier : List (Expr K)} {xs : List D}
    (hearlier : Forall₂ (YieldsFinite finite env setting host) earlier xs) :
    Forall₂ (Yields env setting host) (selectionSlopes beats earlier later)
      ((selectionFlags wins xs ys).map Scalar.ofBool) := by
  induction hlater generalizing earlier xs with
  | nil => exact .nil
  | @cons a x later ys hx hrest ih =>
    rw [selectionSlopes, selectionFlags, List.map_cons]
    have hone : Yields env setting host one (Scalar.ofBool true) := yields_const 1
    have hafter := hone.foldlProduct hK hD (hearlier.imp fun b y hy => hbeats a b x y hx hy)
    rw [Bool.true_and] at hafter
    refine .cons (hafter.foldlProduct hK hD ?_) (ih ?_)
    · exact hrest.imp fun b y hy => (hbeats b a y x hy hx).flagNot hK hD
    · exact List.rel_append hearlier (.cons hx .nil)

end Expr

end Parts

/-! ## Selections -/

namespace LibraryFunction

variable {K D F σ : Type} [Literal K] [Scalar D K] [AddCommGroup F] [LinearOrder F]
  {finite : K → Prop} {value : K → F} {env : Environment K D σ} {setting : Setting D} {host : σ}
  {arguments : List (Expr K)} {xs : List D}

/-- Which argument is selected: the first of the least or greatest, or the nearer limit. -/
def Selects (value : K → F) (xs : List D) (i : Nat) : LibraryFunction → Prop
  | .min => IsFirstLeast (fun x => value (Scalar.real x)) xs i (apply .min xs)
  | .max => IsFirstLeast (fun x => OrderDual.toDual (value (Scalar.real x))) xs i (apply .max xs)
  | .limit => ∃ x low high, xs = [x, low, high] ∧
      i = if value (Scalar.real x) ≤ value (Scalar.real low) then 1
        else if value (Scalar.real high) < value (Scalar.real x) then 2 else 0
  | _ => False

/-- One argument is selected, which is the value, and its slope is one where all others are zero. -/
def SelectsOne (finite : K → Prop) (value : K → F) (f : LibraryFunction) (D : Type) [Scalar D K] :
    Prop :=
  ∀ {σ : Type} (env : Environment K D σ) (setting : Setting D) (host : σ)
    (arguments : List (Expr K)) (xs : List D), env.Standard →
    f.arity.accepts arguments.length = true →
    Forall₂ (YieldsFinite finite env setting host) arguments xs →
    ∃ i, xs[i]? = some (f.apply xs) ∧ f.Selects value xs i ∧
      Yields env setting host (.call f.name arguments) (f.apply xs) ∧
      Forall₂ (Yields env setting host) (f.rule arguments)
        ((oneHot xs.length i).map Scalar.ofBool)

/-- What going through the arguments finds is what the slopes say. -/
theorem exists_selected {P : Type} [LinearOrder P] (key : D → P) (wins : D → D → Bool)
    {beats : Expr K → Expr K → Expr K} (hK : Literal.Ordered finite value) (hD : Scalar.Ordered D)
    (hwins : ∀ x y, finite (Scalar.real x) → finite (Scalar.real y) →
      (wins y x = true ↔ key y < key x))
    (hbeats : ∀ a b x y, YieldsFinite finite env setting host a x →
      YieldsFinite finite env setting host b y →
      Yields env setting host (beats a b) (Scalar.ofBool (wins x y)))
    (hne : 1 ≤ arguments.length)
    (h : Forall₂ (YieldsFinite finite env setting host) arguments xs) :
    ∃ i, IsFirstLeast key xs i (select wins xs) ∧
      Forall₂ (Yields env setting host) (selectionSlopes beats [] arguments)
        ((oneHot xs.length i).map Scalar.ofBool) := by
  have hfinite : ∀ x ∈ xs, finite (Scalar.real x) :=
    (List.forall₂_and_left _ _ |>.mp (h.flip.imp fun _ _ => And.symm)).1
  have hmem : ∀ y ∈ xs, ∀ x ∈ xs, wins y x = true ↔ key y < key x :=
    fun y hy x hx => hwins x y (hfinite x hx) (hfinite y hy)
  have hxs : xs ≠ [] := by
    rw [← List.length_pos_iff, ← h.length_eq]
    exact hne
  obtain ⟨i, hi⟩ := exists_isFirstLeast_select hxs hmem
  refine ⟨i, hi, ?_⟩
  rw [← hi.selectionFlags hmem]
  exact yields_selectionSlopes hK hD hbeats h .nil

variable [IsOrderedAddMonoid F]

theorem selectsOne_min (hK : Literal.Ordered finite value) (hD : Scalar.Ordered D) :
    LibraryFunction.min.SelectsOne finite value D := by
  intro σ env setting host arguments xs henv haccepts h
  obtain ⟨i, hi, hrule⟩ := exists_selected (fun x : D => value (Scalar.real x))
    (fun y best => Scalar.real y < Scalar.real best) hK hD
    (fun x y hx hy => decide_eq_true_iff.trans (hK.lt_iff _ _ hy hx))
    (fun a b x y ha hb => hb.stepDifference hK hD henv ha) (of_decide_eq_true haccepts) h
  exact ⟨i, hi.getElem?, hi, henv.yields_of haccepts (h.imp fun _ _ => And.left), hrule⟩

theorem selectsOne_max (hK : Literal.Ordered finite value) (hD : Scalar.Ordered D) :
    LibraryFunction.max.SelectsOne finite value D := by
  intro σ env setting host arguments xs henv haccepts h
  obtain ⟨i, hi, hrule⟩ := exists_selected (fun x : D => OrderDual.toDual (value (Scalar.real x)))
    (fun y best => Scalar.real y > Scalar.real best) hK hD
    (fun x y hx hy => decide_eq_true_iff.trans (hK.lt_iff _ _ hx hy))
    (fun a b x y ha hb => ha.stepDifference hK hD henv hb) (of_decide_eq_true haccepts) h
  exact ⟨i, hi.getElem?, hi, henv.yields_of haccepts (h.imp fun _ _ => And.left), hrule⟩

/-- The limits are looked at one after the other, the lower one first, and need not be in order. -/
theorem selectsOne_limit (hK : Literal.Ordered finite value) (hD : Scalar.Ordered D) :
    LibraryFunction.limit.SelectsOne finite value D := by
  intro σ env setting host arguments xs henv haccepts h
  have hself := henv.yields_of haccepts (h.imp fun _ _ => And.left)
  obtain ⟨a, b, c, rfl⟩ := List.length_eq_three.mp (eq_of_beq haccepts)
  cases h with
  | @cons _ x _ _ hx h =>
  cases h with
  | @cons _ low _ _ hlow h =>
  cases h with
  | @cons _ high _ _ hhigh h =>
  cases h
  have haboveLow := hx.stepDifference hK hD henv hlow
  have haboveHigh := hx.stepDifference hK hD henv hhigh
  have hrule : Forall₂ (Yields env setting host) (clampSlopes [a, b, c])
      ([decide (Scalar.real low < Scalar.real x) && !decide (Scalar.real high < Scalar.real x),
        !decide (Scalar.real low < Scalar.real x),
        decide (Scalar.real low < Scalar.real x) &&
          decide (Scalar.real high < Scalar.real x)].map Scalar.ofBool) :=
    .cons (haboveLow.flagProduct hK hD (haboveHigh.flagNot hK hD))
      (.cons (haboveLow.flagNot hK hD) (.cons (haboveLow.flagProduct hK hD haboveHigh) .nil))
  have hle := hK.le_iff _ _ hx.2 hlow.2
  have hlt := hK.lt_iff _ _ hhigh.2 hx.2
  have habove : Scalar.real low < Scalar.real x ↔ ¬ Scalar.real x ≤ Scalar.real low := by
    rw [hK.lt_iff _ _ hlow.2 hx.2, hle, not_le]
  have hvalue : LibraryFunction.limit.apply [x, low, high] =
      if Scalar.real x ≤ Scalar.real low then low
      else if Scalar.real x > Scalar.real high then high else x := rfl
  by_cases hxlow : Scalar.real x ≤ Scalar.real low
  · rw [if_pos hxlow] at hvalue
    rw [decide_eq_false (habove.not_left.mpr hxlow)] at hrule
    exact ⟨1, congrArg some hvalue.symm, ⟨x, low, high, rfl, by rw [if_pos (hle.mp hxlow)]⟩, hself,
      hrule⟩
  · rw [if_neg hxlow] at hvalue
    rw [decide_eq_true (habove.mpr hxlow), Bool.true_and, Bool.true_and] at hrule
    by_cases hxhigh : Scalar.real high < Scalar.real x
    · rw [if_pos hxhigh] at hvalue
      rw [decide_eq_true hxhigh] at hrule
      exact ⟨2, congrArg some hvalue.symm, ⟨x, low, high, rfl, by
        rw [if_neg (mt hle.mpr hxlow), if_pos (hlt.mp hxhigh)]⟩, hself, hrule⟩
    · rw [if_neg hxhigh] at hvalue
      rw [decide_eq_false hxhigh] at hrule
      exact ⟨0, congrArg some hvalue.symm, ⟨x, low, high, rfl, by
        rw [if_neg (mt hle.mpr hxlow), if_neg (mt hlt.mpr hxhigh)]⟩, hself, hrule⟩

/-- The functions of the library that select one of their arguments. -/
def selections : List LibraryFunction := [.min, .max, .limit]

/--
**One slope of a selection is one, that of the argument selected, and all others are zero.** The
values of the arguments are finite, and for complex arguments only their real parts matter. Of equal
arguments the first is selected, and limits need not be in order.
-/
theorem selections_one_hot {K F : Type} [RealFunctions K] [AddCommGroup F] [LinearOrder F]
    [IsOrderedAddMonoid F] {finite : K → Prop} {value : K → F}
    (h : Literal.Ordered finite value) :
    ∀ f ∈ selections, f.SelectsOne finite value K ∧ f.SelectsOne finite value (Complex K) := by
  have hreal := Scalar.ordered_real h
  have hcomplex := Scalar.ordered_complex h
  rw [selections]
  simp only [List.forall_mem_cons, List.not_mem_nil, false_imp_iff, implies_true, and_true]
  exact ⟨⟨selectsOne_min h hreal, selectsOne_min h hcomplex⟩,
    ⟨selectsOne_max h hreal, selectsOne_max h hcomplex⟩,
    ⟨selectsOne_limit h hreal, selectsOne_limit h hcomplex⟩⟩

/--
Of `min(2, x, 1)` at one the second argument is selected, the first of two that are equal, and of
`limit(x, 3, 1)` at `2 + i` the lower limit, although it is above the upper one.
-/
theorem selections_one_hot_rational :
    let bindings := (Bindings.empty .caseSensitive).bind .sample 0
    let x : Expr ℚ := .var .sample
    Forall₂ (Yields (Environment.ofBindings bindings : Environment ℚ ℚ Unit) (fun _ => 1) ())
        (LibraryFunction.min.rule [.const 2, x, .const 1]) [0, 1, 0] ∧
      Forall₂ (Yields (Environment.ofBindings bindings : Environment ℚ (Complex ℚ) Unit)
          (fun _ => ⟨2, 1⟩) ())
        (LibraryFunction.limit.rule [x, .const 3, .const 1]) [⟨0, 0⟩, ⟨1, 0⟩, ⟨0, 0⟩] := by
  intro bindings x
  have h := selections_one_hot Literal.ordered_rational
  constructor
  · obtain ⟨i, -, hi, -, hslopes⟩ := (h .min (by decide)).1 (Environment.ofBindings bindings)
      (fun _ => 1) () [.const 2, x, .const 1] [2, 1, 1] ⟨rfl, fun _ _ _ => rfl⟩ rfl
      (.cons ⟨yields_const 2, trivial⟩
        (.cons ⟨yields_var rfl, trivial⟩ (.cons ⟨yields_const 1, trivial⟩ .nil)))
    match i, hi, hslopes with
    | 0, hi, _ => exact absurd hi.getElem? (by decide)
    | 1, _, hslopes => exact hslopes
    | 2, hi, _ => exact absurd (hi.earlier 1 1 (by decide) rfl) (by decide)
    | _ + 3, hi, _ => exact absurd hi.getElem? (by simp)
  · obtain ⟨i, -, ⟨_, _, _, hxs, rfl⟩, -, hslopes⟩ :=
      (h .limit (by decide)).2 (Environment.ofBindings bindings) (fun _ => ⟨2, 1⟩) ()
        [x, .const 3, .const 1] [⟨2, 1⟩, ⟨3, 0⟩, ⟨1, 0⟩] ⟨rfl, fun _ _ _ => rfl⟩ rfl
        (.cons ⟨yields_var rfl, trivial⟩
          (.cons ⟨yields_const 3, trivial⟩ (.cons ⟨yields_const 1, trivial⟩ .nil)))
    cases hxs
    exact hslopes

end LibraryFunction

end CircuitExpr
