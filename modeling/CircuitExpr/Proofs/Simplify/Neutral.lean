import Mathlib
import CircuitExpr.Proofs.Simplify.Fold

/-!
# Dropping neutral parts keeps values, up to similarity

An addition or subtraction of zero and a multiplication by one are replaced by their other
operand. Whether that makes no difference depends on the domain: a complex number that is not
finite changes when it is multiplied by one. So the condition on multiplications is stated for the
values that are met.

## Main statements

* `dropNeutralBinary_cases` — what is dropped in one step
* `dropNeutral_related` — dropping neutral parts
* `optimize_related` — folding and dropping, one after the other
* `optimize_related_recorded` — the same with the calls noted down
-/

namespace CircuitExpr

namespace Expr

open Run Scalar

variable {K D σ : Type} [Literal K] [Scalar D K] {env : Environment K D σ} {setting : Setting D}
  {V : D → D → Prop} {R : σ → σ → Prop}

/-- No value is changed by a multiplication by one that is dropped. -/
inductive OnesFit (env : Environment K D σ) (setting : Setting D) (V : D → D → Prop) :
    Expr K → Prop where
  | const (value : K) : OnesFit env setting V (.const value)
  | var (v : Variable) : OnesFit env setting V (.var v)
  | unary (op : UnaryOp) {operand : Expr K} (h : OnesFit env setting V operand) :
      OnesFit env setting V (.unary op operand)
  | binary {op : BinaryOp} {left right : Expr K} (hleft : OnesFit env setting V left)
      (hright : OnesFit env setting V right)
      (hmul : op = .mul → ∀ u, (u == 1) = true →
        (dropNeutral right = .const u →
          ∀ x, (evaluate env setting left).Meets x → V (x * ofReal u) x) ∧
        (dropNeutral left = .const u →
          ∀ x, (evaluate env setting right).Meets x → V (ofReal u * x) x)) :
      OnesFit env setting V (.binary op left right)
  | cond {condition whenTrue whenFalse : Expr K} (hcondition : OnesFit env setting V condition)
      (htrue : OnesFit env setting V whenTrue) (hfalse : OnesFit env setting V whenFalse) :
      OnesFit env setting V (.cond condition whenTrue whenFalse)
  | call (name : String) {arguments : List (Expr K)}
      (h : ∀ e ∈ arguments, OnesFit env setting V e) : OnesFit env setting V (.call name arguments)
  | ext (name : String) (arguments : List (Expr K)) : OnesFit env setting V (.ext name arguments)

theorem onesFit_of_neutralOne (hone : NeutralOne V) (e : Expr K) : e.OnesFit env setting V := by
  induction e using Expr.induction with
  | const value => exact .const value
  | var v => exact .var v
  | unary op operand ih => exact .unary op ih
  | binary op left right ihl ihr =>
    exact .binary ihl ihr fun _ u hu =>
      ⟨fun _ x _ => hone.mul_one u x hu, fun _ x _ => hone.one_mul u x hu⟩
  | cond condition whenTrue whenFalse ihc iht ihf => exact .cond ihc iht ihf
  | call name arguments ih => exact .call name ih
  | ext name arguments => exact .ext name arguments

/-! ## One step -/

/-- Either nothing is dropped, or a neutral constant on the right, or one on the left. -/
theorem dropNeutralBinary_cases (op : BinaryOp) (left right : Expr K) :
    dropNeutralBinary op left right = .binary op left right ∨
      (∃ z, right = .const z ∧ dropNeutralBinary op left right = left ∧
        (op = .add ∧ (z == 0) = true ∨ op = .sub ∧ (z == 0) = true ∨
          op = .mul ∧ (z == 1) = true)) ∨
      (∃ z, left = .const z ∧ dropNeutralBinary op left right = right ∧
        (op = .add ∧ (z == 0) = true ∨ op = .mul ∧ (z == 1) = true)) := by
  unfold dropNeutralBinary
  split
  · split
    · next h =>
      obtain ⟨z, hz, hvalue⟩ := isValue_eq_true.mp h
      exact .inr (.inl ⟨z, hz, rfl, .inl ⟨rfl, hvalue⟩⟩)
    · split
      · next h =>
        obtain ⟨z, hz, hvalue⟩ := isValue_eq_true.mp h
        exact .inr (.inr ⟨z, hz, rfl, .inl ⟨rfl, hvalue⟩⟩)
      · exact .inl rfl
  · split
    · next h =>
      obtain ⟨z, hz, hvalue⟩ := isValue_eq_true.mp h
      exact .inr (.inl ⟨z, hz, rfl, .inr (.inl ⟨rfl, hvalue⟩)⟩)
    · exact .inl rfl
  · split
    · next h =>
      obtain ⟨z, hz, hvalue⟩ := isValue_eq_true.mp h
      exact .inr (.inl ⟨z, hz, rfl, .inr (.inr ⟨rfl, hvalue⟩)⟩)
    · split
      · next h =>
        obtain ⟨z, hz, hvalue⟩ := isValue_eq_true.mp h
        exact .inr (.inr ⟨z, hz, rfl, .inr ⟨rfl, hvalue⟩⟩)
      · exact .inl rfl
  · exact .inl rfl

section Step

variable {op : BinaryOp} {e e' left right : Expr K} {z : K} (hV : Similarity V)
  (hop : op.Respects V env.tolerances)
include hV hop

/-- The right operand is neutral for all values that the left one has. -/
theorem drop_right_related
    (hleft : Related V R (evaluate env setting e) (evaluate env setting left))
    (hright : Related V R (evaluate env setting e') (evaluate env setting (.const z)))
    (hz : ∀ x, (evaluate env setting e).Meets x →
      Agree V (op.apply env.tolerances x (ofReal z)) (.ok x)) :
    Related V R (evaluate env setting (.binary op e e')) (evaluate env setting left) := by
  rw [evaluate_const] at hright
  rw [evaluate, ← bind_pure (evaluate env setting left)]
  -- the right operand is evaluated after the left one, but it only changes the host's state
  refine hleft.meets.bind fun x x' h => hright.bind_of_pure fun y hy => ?_
  obtain ⟨hx, hmeets⟩ := h
  have hagree := (hop x x y _ (hV.refl x) hy).trans hV.equivalence (hz x hmeets)
  have hsame : Agree V (.ok x : Except ExpressionError D) (.ok x') := .ok hx
  exact .ofExcept (hagree.trans hV.equivalence hsame)

/-- The left operand is neutral for all values that the right one has. -/
theorem drop_left_related
    (hleft : Related V R (evaluate env setting e) (evaluate env setting (.const z)))
    (hright : Related V R (evaluate env setting e') (evaluate env setting right))
    (hz : ∀ y, (evaluate env setting e').Meets y →
      Agree V (op.apply env.tolerances (ofReal z) y) (.ok y)) :
    Related V R (evaluate env setting (.binary op e e')) (evaluate env setting right) := by
  rw [evaluate_const] at hleft
  rw [evaluate, ← bind_pure (evaluate env setting right)]
  refine hleft.bind_of_pure fun x hx => hright.meets.bind fun y y' h => ?_
  obtain ⟨hy, hmeets⟩ := h
  have hagree := (hop x _ y y hx (hV.refl y)).trans hV.equivalence (hz y hmeets)
  have hsame : Agree V (.ok y : Except ExpressionError D) (.ok y') := .ok hy
  exact .ofExcept (hagree.trans hV.equivalence hsame)

theorem dropNeutralBinary_related (hzero : NeutralZero V)
    (hmul : op = .mul → ∀ u, (u == 1) = true →
      (right = .const u → ∀ x, (evaluate env setting e).Meets x → V (x * ofReal u) x) ∧
      (left = .const u → ∀ x, (evaluate env setting e').Meets x → V (ofReal u * x) x))
    (hleft : Related V R (evaluate env setting e) (evaluate env setting left))
    (hright : Related V R (evaluate env setting e') (evaluate env setting right)) :
    Related V R (evaluate env setting (.binary op e e'))
      (evaluate env setting (dropNeutralBinary op left right)) := by
  rcases dropNeutralBinary_cases op left right with
    hkept | ⟨z, rfl, hdropped, hneutral⟩ | ⟨z, rfl, hdropped, hneutral⟩
  · rw [hkept]
    exact evaluate_binary_related rfl hop hleft hright
  · rw [hdropped]
    refine drop_right_related hV hop hleft hright fun x hx => ?_
    rcases hneutral with ⟨rfl, hz⟩ | ⟨rfl, hz⟩ | ⟨rfl, hu⟩
    · exact .ok (hzero.add_zero z x hz)
    · exact .ok (hzero.sub_zero z x hz)
    · exact .ok ((hmul rfl z hu).1 rfl x hx)
  · rw [hdropped]
    refine drop_left_related hV hop hleft hright fun y hy => ?_
    rcases hneutral with ⟨rfl, hz⟩ | ⟨rfl, hu⟩
    · exact .ok (hzero.zero_add z y hz)
    · exact .ok ((hmul rfl z hu).2 rfl y hy)

end Step

/-! ## Dropping neutral parts of an expression -/

theorem dropNeutralEach_eq_map (es : List (Expr K)) :
    dropNeutralEach es = es.map dropNeutral := by
  induction es with
  | nil => rw [dropNeutralEach, List.map_nil]
  | cons e rest ih => rw [dropNeutralEach, ih, List.map_cons]

theorem dropNeutral_related (hV : Similarity V) (hzero : NeutralZero V) {e : Expr K}
    (he : e.Respectful env V R) (hplain : Plain e) (hones : e.OnesFit env setting V) :
    Related V R (evaluate env setting e) (evaluate env setting e.dropNeutral) := by
  induction e using Expr.induction with
  | const value =>
    rw [dropNeutral]
    exact evaluate_const_related hV.refl value
  | var v =>
    rw [dropNeutral]
    exact evaluate_var_related hV.refl rfl v
  | unary op operand ih =>
    rw [dropNeutral]
    cases he with
    | unary _ he =>
      cases hplain with
      | unary _ hplain =>
        cases hones with
        | unary _ hones => exact evaluate_unary_related (hV.unary op) (ih he hplain hones)
  | binary op left right ihl ihr =>
    rw [dropNeutral]
    cases he with
    | binary hop hel her =>
      cases hplain with
      | binary _ hpl hpr =>
        cases hones with
        | binary hol hor hmul =>
          exact dropNeutralBinary_related hV hop hzero hmul (ihl hel hpl hol) (ihr her hpr hor)
  | cond condition whenTrue whenFalse ihc iht ihf =>
    rw [dropNeutral]
    cases he with
    | cond hec het hef =>
      cases hplain with
      | cond hpc hpt hpf =>
        cases hones with
        | cond hoc hot hof =>
          exact evaluate_cond_related (fun _ _ h => hV.isTrue h) (ihc hec hpc hoc)
            (iht het hpt hot) (ihf hef hpf hof)
  | call name arguments ih =>
    rw [dropNeutral, dropNeutralEach_eq_map]
    cases he with
    | call hnative hes =>
      cases hplain with
      | call _ hps =>
        cases hones with
        | call _ hos =>
          refine evaluate_call_related rfl (List.length_map _).symm hnative ?_
          exact evaluateEach_map_related fun e hmem =>
            ih e hmem (hes e hmem) (hps e hmem) (hos e hmem)
  | ext name arguments => cases hplain

/-- **Dropping neutral parts brings in no operator and no call.** -/
theorem Hereditary.dropNeutral {S : Expr K → Prop} (hS : Hereditary S) {e : Expr K} (h : S e) :
    S e.dropNeutral := by
  induction e using Expr.induction with
  | const | var =>
    rw [Expr.dropNeutral]
    exact h
  | unary op operand ih =>
    rw [Expr.dropNeutral]
    exact hS.unary.mpr (ih (hS.unary.mp h))
  | binary op left right ihl ihr =>
    rw [Expr.dropNeutral]
    obtain ⟨hl, hr, hbinary⟩ := hS.binary h
    obtain hkept | ⟨_, -, hdropped, -⟩ | ⟨_, -, hdropped, -⟩ :=
      dropNeutralBinary_cases op left.dropNeutral right.dropNeutral
    · rw [hkept]
      exact hbinary (ihl hl) (ihr hr)
    · rw [hdropped]
      exact ihl hl
    · rw [hdropped]
      exact ihr hr
  | cond condition whenTrue whenFalse ihc iht ihf =>
    rw [Expr.dropNeutral]
    obtain ⟨hc, ht, hf⟩ := hS.cond.mp h
    exact hS.cond.mpr ⟨ihc hc, iht ht, ihf hf⟩
  | call name arguments ih =>
    rw [Expr.dropNeutral, dropNeutralEach_eq_map]
    obtain ⟨harguments, hcall⟩ := hS.call h
    exact hcall (List.length_map _) (List.forall_mem_map.mpr fun e he => ih e he (harguments e he))
  | ext name arguments ih =>
    rw [Expr.dropNeutral, dropNeutralEach_eq_map]
    obtain ⟨harguments, hext⟩ := hS.ext h
    exact hext (List.length_map _) (List.forall_mem_map.mpr fun e he => ih e he (harguments e he))

/-- **Optimizing keeps what is asked of the operators and the calls of an expression.** -/
theorem Hereditary.optimize {S : Expr K → Prop} (hS : Hereditary S) {tolerances : Tolerances K}
    {e : Expr K} (h : S e) : S (e.optimize D tolerances) :=
  hS.dropNeutral (hS.foldConstants h)

theorem Plain.of_dropNeutralBinary {op : BinaryOp} {left right : Expr K}
    (h : Plain (dropNeutralBinary op left right)) : Plain left ∧ Plain right := by
  rcases dropNeutralBinary_cases op left right with
    hkept | ⟨z, rfl, hdropped, -⟩ | ⟨z, rfl, hdropped, -⟩
  · rw [hkept] at h
    cases h with
    | binary _ hleft hright => exact ⟨hleft, hright⟩
  · rw [hdropped] at h
    exact ⟨h, .const z⟩
  · rw [hdropped] at h
    exact ⟨.const z, h⟩

/-- The neutral parts of an expression ask nothing of the host. -/
theorem Plain.of_dropNeutral {e : Expr K} (h : Plain e.dropNeutral) : Plain e := by
  induction e using Expr.induction with
  | const value => exact .const value
  | var v => exact .var v
  | unary op operand ih =>
    rw [dropNeutral] at h
    cases h with
    | unary _ h => exact .unary op (ih h)
  | binary op left right ihl ihr =>
    rw [dropNeutral] at h
    obtain ⟨hleft, hright⟩ := h.of_dropNeutralBinary
    exact .binary op (ihl hleft) (ihr hright)
  | cond condition whenTrue whenFalse ihc iht ihf =>
    rw [dropNeutral] at h
    cases h with
    | cond hc ht hf => exact .cond (ihc hc) (iht ht) (ihf hf)
  | call name arguments ih =>
    rw [dropNeutral, dropNeutralEach_eq_map] at h
    cases h with
    | call _ h => exact .call name fun e hmem => ih e hmem (h _ (List.mem_map_of_mem hmem))
  | ext name arguments =>
    rw [dropNeutral] at h
    cases h

/-- **Evaluating the optimized expression is related to evaluating the expression.** -/
theorem optimize_related (hV : Similarity V) (hR : Equivalence R) (hwritable : Writable V)
    (hzero : NeutralZero V) {e : Expr K} (he : e.Respectful env V R)
    (hplain : Plain (e.optimize D env.tolerances))
    (hones : (e.foldConstants D env.tolerances).OnesFit env setting V) :
    Related V R (evaluate env setting e)
      (evaluate env setting (e.optimize D env.tolerances)) :=
  (foldConstants_related hV hwritable he hplain.of_dropNeutral).trans hV.equivalence hR
    (dropNeutral_related hV hzero (respectful_hereditary.foldConstants he) hplain.of_dropNeutral
      hones)

/-! ## The same with the calls noted down -/

theorem Respectful.recorded {e : Expr K} (he : e.Respectful env V R) :
    e.Respectful env.recorded V (SimilarRecords V R) := by
  induction e using Expr.induction with
  | const value => exact .const value
  | var v => exact .var v
  | unary op operand ih =>
    cases he with
    | unary _ he => exact .unary op (ih he)
  | binary op left right ihl ihr =>
    cases he with
    | binary hop hl hr => exact .binary hop (ihl hl) (ihr hr)
  | cond condition whenTrue whenFalse ihc iht ihf =>
    cases he with
    | cond hc ht hf => exact .cond (ihc hc) (iht ht) (ihf hf)
  | call name arguments ih =>
    cases he with
    | call hnative hes =>
      exact .call (fun d hd => (hnative d hd).recordCalls) fun e hmem => ih e hmem (hes e hmem)
  | ext name arguments ih =>
    cases he with
    | ext _ hes => exact .ext name fun e hmem => ih e hmem (hes e hmem)

theorem meets_of_recorded {e : Expr K} {x : D}
    (h : (evaluate env.recorded setting e).Meets x) : (evaluate env setting e).Meets x := by
  obtain ⟨⟨host, calls⟩, ⟨host', calls'⟩, h⟩ := h
  exact ⟨host, host', evaluate_of_recorded h⟩

theorem OnesFit.recorded {e : Expr K} (he : e.OnesFit env setting V) :
    e.OnesFit env.recorded setting V := by
  induction e using Expr.induction with
  | const value => exact .const value
  | var v => exact .var v
  | unary op operand ih =>
    cases he with
    | unary _ he => exact .unary op (ih he)
  | binary op left right ihl ihr =>
    cases he with
    | binary hl hr hmul =>
      refine .binary (ihl hl) (ihr hr) fun hop u hu => ⟨fun h x hx => ?_, fun h x hx => ?_⟩
      · exact (hmul hop u hu).1 h x (meets_of_recorded hx)
      · exact (hmul hop u hu).2 h x (meets_of_recorded hx)
  | cond condition whenTrue whenFalse ihc iht ihf =>
    cases he with
    | cond hc ht hf => exact .cond (ihc hc) (iht ht) (ihf hf)
  | call name arguments ih =>
    cases he with
    | call _ hes => exact .call name fun e hmem => ih e hmem (hes e hmem)
  | ext name arguments => exact .ext name arguments

/-- Evaluating the optimized expression calls the same functions with similar arguments. -/
theorem optimize_related_recorded (hV : Similarity V) (hR : Equivalence R)
    (hwritable : Writable V) (hzero : NeutralZero V) {e : Expr K} (he : e.Respectful env V R)
    (hplain : Plain (e.optimize D env.tolerances))
    (hones : (e.foldConstants D env.tolerances).OnesFit env setting V) :
    Related V (SimilarRecords V R) (evaluate env.recorded setting e)
      (evaluate env.recorded setting (e.optimize D env.tolerances)) :=
  optimize_related hV (similarRecords_equivalence hV.equivalence hR) hwritable hzero he.recorded
    hplain hones.recorded

end Expr

end CircuitExpr
