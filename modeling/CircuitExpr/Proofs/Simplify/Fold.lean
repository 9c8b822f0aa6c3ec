import Mathlib
import CircuitExpr.Proofs.Simplify.Similar

/-!
# Constant folding keeps values, up to similarity

A folded operator is an operator between constants that was computed in the same domain; what is
written down is similar to what was computed. A conditional that was decided beforehand decides in
the same way when it is evaluated. So evaluating a folded expression is related to evaluating the
expression itself, and the same functions are called.

## Main statements

* `foldUnary_cases`, `foldBinary_cases` — what a folding step does
* `foldUnary_related`, `foldBinary_related` — a folding step keeps values
* `foldConstants_related` — folding an expression
* `Hereditary`, `Hereditary.foldConstants` — folding brings in no operator and no call
-/

namespace CircuitExpr

namespace Run

variable {σ τ α β γ δ : Type} {V : α → β → Prop} {W : γ → δ → Prop} {R : σ → τ → Prop}

/-- A computation related to a constant only changes the state of the host. -/
theorem Related.bind_of_pure {x : Run σ α} {b : β} {f : α → Run σ γ} {y : Run τ δ}
    (h : Related V R x (Pure.pure b)) (hf : ∀ a, V a b → Related W R (f a) y) :
    Related W R (x >>= f) y := by
  intro s t hst
  obtain ⟨hvalue, hstate⟩ := h s t hst
  rcases hx : x.outcome s with ⟨r, s'⟩
  rw [hx, outcome_pure] at hvalue hstate
  cases hvalue with
  | ok hab =>
    rw [outcome_bind_ok hx]
    exact hf _ hab s' t hstate

end Run

namespace Expr

open Run Scalar

/-- A value is written as a constant only if it equals the constant. -/
theorem getD_literal?_cases {K D : Type} [Scalar D K] (x : D) (e : Expr K) :
    (literal? D x).getD e = e ∨
      (literal? D x).getD e = .const (real x) ∧ (ofReal (real x) == x) = true := by
  unfold literal?
  split
  · next hequal => exact .inr ⟨rfl, hequal⟩
  · exact .inl rfl

variable {K D σ : Type} [Literal K] [Scalar D K] {env : Environment K D σ} {setting : Setting D}
  {V : D → D → Prop} {R : σ → σ → Prop}

theorem evaluate_const (value : K) :
    evaluate env setting (.const value) = pure (ofReal value) := by
  rw [evaluate]

/-! ## One step -/

theorem foldUnary_cases (D : Type) [Scalar D K] (op : UnaryOp) (operand : Expr K) :
    foldUnary D op operand = .unary op operand ∨
      ∃ x, operand = .const x ∧
        foldUnary D op operand = .const (real (op.apply (ofReal x : D))) ∧
        (ofReal (real (op.apply (ofReal x : D))) == op.apply (ofReal x : D)) = true := by
  unfold foldUnary
  split
  · next x hx =>
    obtain hkept | ⟨hfolded, hequal⟩ :=
      getD_literal?_cases (op.apply (ofReal x : D)) (.unary op operand)
    · exact .inl hkept
    · exact .inr ⟨x, constant?_eq_some.mp hx, hfolded, hequal⟩
  · exact .inl rfl

theorem foldBinary_cases (D : Type) [Scalar D K] (tolerances : Tolerances K) (op : BinaryOp)
    (left right : Expr K) :
    foldBinary D tolerances op left right = .binary op left right ∨
      ∃ x y, ∃ value : D, left = .const x ∧ right = .const y ∧
        op.apply tolerances (ofReal x) (ofReal y) = .ok value ∧
        foldBinary D tolerances op left right = .const (real value) ∧
        (ofReal (real value) == value) = true := by
  unfold foldBinary
  split
  · next x y hx hy =>
    split
    · next value hok =>
      obtain hkept | ⟨hfolded, hequal⟩ := getD_literal?_cases value (.binary op left right)
      · exact .inl hkept
      · exact .inr ⟨x, y, value, constant?_eq_some.mp hx, constant?_eq_some.mp hy, hok, hfolded,
          hequal⟩
    · exact .inl rfl
  · exact .inl rfl

theorem foldUnary_related (hV : Similarity V) (hwritable : Writable V) {op : UnaryOp}
    {e operand : Expr K} (h : Related V R (evaluate env setting e) (evaluate env setting operand)) :
    Related V R (evaluate env setting (.unary op e))
      (evaluate env setting (foldUnary D op operand)) := by
  obtain hkept | ⟨x, rfl, hfolded, hequal⟩ := foldUnary_cases D op operand
  · rw [hkept]
    exact evaluate_unary_related (hV.unary op) h
  · rw [evaluate_const] at h
    rw [hfolded, evaluate_const, evaluate]
    exact h.bind_of_pure fun a ha => .pure (hV.trans (hV.unary op a _ ha) (hwritable _ hequal))

theorem foldBinary_related (hV : Similarity V) (hwritable : Writable V) {op : BinaryOp}
    {e e' left right : Expr K} (hop : op.Respects V env.tolerances)
    (hleft : Related V R (evaluate env setting e) (evaluate env setting left))
    (hright : Related V R (evaluate env setting e') (evaluate env setting right)) :
    Related V R (evaluate env setting (.binary op e e'))
      (evaluate env setting (foldBinary D env.tolerances op left right)) := by
  obtain hkept | ⟨x, y, value, rfl, rfl, hok, hfolded, hequal⟩ :=
    foldBinary_cases D env.tolerances op left right
  · rw [hkept]
    exact evaluate_binary_related rfl hop hleft hright
  · rw [evaluate_const] at hleft hright
    rw [hfolded, evaluate_const, evaluate]
    refine hleft.bind_of_pure fun a ha => hright.bind_of_pure fun b hb => ?_
    -- what is computed here is similar to what folding computed, and that to what it wrote down
    have hagree := hop a _ b _ ha hb
    rw [hok] at hagree
    have hwritten : Agree V (.ok value : Except ExpressionError D) (.ok (ofReal (real value))) :=
      .ok (hwritable value hequal)
    exact .ofExcept (hagree.trans hV.equivalence hwritten)

/-! ## Folding an expression -/

theorem foldEach_eq_map (tolerances : Tolerances K) (es : List (Expr K)) :
    foldEach D tolerances es = es.map (foldConstants D tolerances) := by
  induction es with
  | nil => rw [foldEach, List.map_nil]
  | cons e rest ih => rw [foldEach, ih, List.map_cons]

theorem Plain.of_foldUnary {op : UnaryOp} {operand : Expr K}
    (h : Plain (foldUnary D op operand)) : Plain operand := by
  obtain hkept | ⟨x, rfl, -⟩ := foldUnary_cases D op operand
  · rw [hkept] at h
    cases h with
    | unary _ h => exact h
  · exact .const x

theorem Plain.of_foldBinary {tolerances : Tolerances K} {op : BinaryOp} {left right : Expr K}
    (h : Plain (foldBinary D tolerances op left right)) : Plain left ∧ Plain right := by
  obtain hkept | ⟨x, y, _, rfl, rfl, -⟩ := foldBinary_cases D tolerances op left right
  · rw [hkept] at h
    cases h with
    | binary _ hleft hright => exact ⟨hleft, hright⟩
  · exact ⟨.const x, .const y⟩

/--
**Evaluating the folded expression is related to evaluating the expression**, provided that the
former asks nothing of the host. A value that a conditional does not choose may be anything.
-/
theorem foldConstants_related (hV : Similarity V) (hwritable : Writable V) {e : Expr K}
    (he : e.Respectful env V R) (hplain : Plain (e.foldConstants D env.tolerances)) :
    Related V R (evaluate env setting e)
      (evaluate env setting (e.foldConstants D env.tolerances)) := by
  induction e using Expr.induction with
  | const value =>
    rw [foldConstants]
    exact evaluate_const_related hV.refl value
  | var v =>
    rw [foldConstants]
    exact evaluate_var_related hV.refl rfl v
  | unary op operand ih =>
    rw [foldConstants] at hplain ⊢
    cases he with
    | unary _ he => exact foldUnary_related hV hwritable (ih he hplain.of_foldUnary)
  | binary op left right ihl ihr =>
    rw [foldConstants] at hplain ⊢
    obtain ⟨hplainl, hplainr⟩ := hplain.of_foldBinary
    cases he with
    | binary hop hl hr =>
      exact foldBinary_related hV hwritable hop (ihl hl hplainl) (ihr hr hplainr)
  | cond condition whenTrue whenFalse ihc iht ihf =>
    rw [foldConstants] at hplain ⊢
    cases he with
    | cond hc ht hf =>
      cases hx : (foldConstants D env.tolerances condition).constant? with
      | none =>
        rw [hx] at hplain
        cases hplain with
        | cond hpc hpt hpf =>
          exact evaluate_cond_related (fun _ _ h => hV.isTrue h) (ihc hc hpc) (iht ht hpt)
            (ihf hf hpf)
      | some x =>
        -- the branch is chosen by a constant, which the condition is similar to
        have hfolded := constant?_eq_some.mp hx
        have hcondition := ihc hc (hfolded ▸ .const x)
        rw [hfolded, evaluate_const] at hcondition
        simp only [hx] at hplain ⊢
        rw [evaluate]
        refine hcondition.bind_of_pure fun a ha => ?_
        rw [hV.isTrue ha]
        split
        · next htrue =>
          rw [if_pos htrue] at hplain
          exact iht ht hplain
        · next hfalse =>
          rw [if_neg hfalse] at hplain
          exact ihf hf hplain
  | call name arguments ih =>
    rw [foldConstants, foldEach_eq_map] at hplain ⊢
    cases he with
    | call hnative harguments =>
      cases hplain with
      | call _ hplain =>
        refine evaluate_call_related rfl (List.length_map _).symm hnative ?_
        exact evaluateEach_map_related fun e hmem =>
          ih e hmem (harguments e hmem) (hplain _ (List.mem_map_of_mem hmem))
  | ext name arguments ih =>
    rw [foldConstants] at hplain
    cases hplain

/-! ## What folding brings in -/

/--
A property that is asked of every operator and every call of an expression by itself: the parts of
an expression have it as well, and may be exchanged for others that have it.
-/
structure Hereditary (S : Expr K → Prop) : Prop where
  const : ∀ value, S (.const value)
  unary : ∀ {op e}, S (.unary op e) ↔ S e
  binary : ∀ {op left right}, S (.binary op left right) →
    S left ∧ S right ∧ ∀ {a b}, S a → S b → S (.binary op a b)
  cond : ∀ {condition whenTrue whenFalse}, S (.cond condition whenTrue whenFalse) ↔
    S condition ∧ S whenTrue ∧ S whenFalse
  call : ∀ {name arguments}, S (.call name arguments) → (∀ e ∈ arguments, S e) ∧
    ∀ {es}, es.length = arguments.length → (∀ e ∈ es, S e) → S (.call name es)
  ext : ∀ {name arguments}, S (.ext name arguments) → (∀ e ∈ arguments, S e) ∧
    ∀ {es}, es.length = arguments.length → (∀ e ∈ es, S e) → S (.ext name es)

/-- **Folding brings in no operator and no call**, so it keeps what is asked of them. -/
theorem Hereditary.foldConstants {S : Expr K → Prop} (hS : Hereditary S)
    {tolerances : Tolerances K} {e : Expr K} (h : S e) : S (e.foldConstants D tolerances) := by
  induction e using Expr.induction with
  | const | var =>
    rw [Expr.foldConstants]
    exact h
  | unary op operand ih =>
    rw [Expr.foldConstants]
    obtain hkept | ⟨_, -, hfolded, -⟩ := foldUnary_cases D op (operand.foldConstants D tolerances)
    · rw [hkept]
      exact hS.unary.mpr (ih (hS.unary.mp h))
    · rw [hfolded]
      exact hS.const _
  | binary op left right ihl ihr =>
    rw [Expr.foldConstants]
    obtain ⟨hl, hr, hbinary⟩ := hS.binary h
    obtain hkept | ⟨_, _, _, -, -, -, hfolded, -⟩ := foldBinary_cases D tolerances op
      (left.foldConstants D tolerances) (right.foldConstants D tolerances)
    · rw [hkept]
      exact hbinary (ihl hl) (ihr hr)
    · rw [hfolded]
      exact hS.const _
  | cond condition whenTrue whenFalse ihc iht ihf =>
    rw [Expr.foldConstants]
    obtain ⟨hc, ht, hf⟩ := hS.cond.mp h
    -- a condition that is a constant leaves one of the two values
    split
    · split
      · exact iht ht
      · exact ihf hf
    · exact hS.cond.mpr ⟨ihc hc, iht ht, ihf hf⟩
  | call name arguments ih =>
    rw [Expr.foldConstants, foldEach_eq_map]
    obtain ⟨harguments, hcall⟩ := hS.call h
    exact hcall (List.length_map _) (List.forall_mem_map.mpr fun e he => ih e he (harguments e he))
  | ext name arguments ih =>
    rw [Expr.foldConstants, foldEach_eq_map]
    obtain ⟨harguments, hext⟩ := hS.ext h
    exact hext (List.length_map _) (List.forall_mem_map.mpr fun e he => ih e he (harguments e he))

theorem respectful_hereditary : Hereditary (Respectful env V R : Expr K → Prop) where
  const := .const
  unary := by
    refine ⟨fun h => ?_, .unary _⟩
    cases h with
    | unary _ h => exact h
  binary h := by
    cases h with
    | binary hop hl hr => exact ⟨hl, hr, .binary hop⟩
  cond := by
    refine ⟨fun h => ?_, fun ⟨hc, ht, hf⟩ => .cond hc ht hf⟩
    cases h with
    | cond hc ht hf => exact ⟨hc, ht, hf⟩
  call h := by
    cases h with
    | call hnative h => exact ⟨h, fun hlength hes => .call (by rwa [hlength]) hes⟩
  ext h := by
    cases h with
    | ext _ h => exact ⟨h, fun _ hes => .ext _ hes⟩

end Expr

end CircuitExpr
