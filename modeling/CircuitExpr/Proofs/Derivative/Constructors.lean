import Mathlib
import CircuitExpr.Derivative.Derive
import CircuitExpr.Proofs.Simplify.Similar

/-!
# What folding constructors do

Each folding constructor either folds constants, drops a neutral or vanishing part, or builds the
operator. The case lemmas say which, together with the constants that led there; whatever is to
be shown of a derivative is shown case by case from them.

## Contents

* `negate_cases`, `sum_cases`, `difference_cases`, `product_cases`, `quotient_cases`
* `derive_binary`, `derive_cond`, … — the rule for each form of expression, as an equation
* `derive_binary_eq`, `derive_cond_eq`, … — the derivative of an operator whose operands have one
* `derive_binary_eq_ok`, `derive_cond_eq_ok`, … — which derivatives were found for it
-/

namespace CircuitExpr.Expr

variable {K : Type} [Literal K]

/-! ## Folding constructors -/

omit [Literal K] in
@[simp] theorem constant?_const (x : K) : (const x).constant? = some x := rfl

theorem negate_cases (a : Expr K) :
    (∃ x, a = .const x ∧ negate a = .const (-x)) ∨
      (∃ inner, a = .unary .minus inner ∧ negate a = inner) ∨ negate a = .unary .minus a := by
  unfold negate
  split
  · exact .inl ⟨_, rfl, rfl⟩
  · exact .inr (.inl ⟨_, rfl, rfl⟩)
  · exact .inr (.inr rfl)

theorem sum_cases (a b : Expr K) :
    (∃ x y, a = .const x ∧ b = .const y ∧ sum a b = .const (x + y)) ∨
      (∃ x, a = .const x ∧ (x == 0) = true ∧ sum a b = b) ∨
      (∃ y, b = .const y ∧ (y == 0) = true ∧ sum a b = a) ∨ sum a b = .binary .add a b := by
  unfold sum
  split
  · next x y hx hy => exact .inl ⟨x, y, constant?_eq_some.mp hx, constant?_eq_some.mp hy, rfl⟩
  · next x hx _ =>
    split
    · next hzero => exact .inr (.inl ⟨x, constant?_eq_some.mp hx, hzero, rfl⟩)
    · exact .inr (.inr (.inr rfl))
  · next y _ hy =>
    split
    · next hzero => exact .inr (.inr (.inl ⟨y, constant?_eq_some.mp hy, hzero, rfl⟩))
    · exact .inr (.inr (.inr rfl))
  · exact .inr (.inr (.inr rfl))

theorem difference_cases (a b : Expr K) :
    (∃ x y, a = .const x ∧ b = .const y ∧ difference a b = .const (x - y)) ∨
      (∃ x, a = .const x ∧ (x == 0) = true ∧ difference a b = negate b) ∨
      (∃ y, b = .const y ∧ (y == 0) = true ∧ difference a b = a) ∨
      difference a b = .binary .sub a b := by
  unfold difference
  split
  · next x y hx hy => exact .inl ⟨x, y, constant?_eq_some.mp hx, constant?_eq_some.mp hy, rfl⟩
  · next y _ hy =>
    split
    · next hzero => exact .inr (.inr (.inl ⟨y, constant?_eq_some.mp hy, hzero, rfl⟩))
    · exact .inr (.inr (.inr rfl))
  · next x hx _ =>
    split
    · next hzero => exact .inr (.inl ⟨x, constant?_eq_some.mp hx, hzero, rfl⟩)
    · exact .inr (.inr (.inr rfl))
  · exact .inr (.inr (.inr rfl))

theorem product_cases (a b : Expr K) :
    (∃ x y, a = .const x ∧ b = .const y ∧ product a b = .const (x * y)) ∨
      (∃ x, (a = .const x ∨ b = .const x) ∧ (x == 0) = true ∧ product a b = zero) ∨
      (∃ x, a = .const x ∧ (x == 1) = true ∧ product a b = b) ∨
      (∃ y, b = .const y ∧ (y == 1) = true ∧ product a b = a) ∨
      product a b = .binary .mul a b := by
  unfold product
  split
  · next x y hx hy => exact .inl ⟨x, y, constant?_eq_some.mp hx, constant?_eq_some.mp hy, rfl⟩
  · next x hx _ =>
    split
    · next hzero => exact .inr (.inl ⟨x, .inl (constant?_eq_some.mp hx), hzero, rfl⟩)
    · split
      · next hone => exact .inr (.inr (.inl ⟨x, constant?_eq_some.mp hx, hone, rfl⟩))
      · exact .inr (.inr (.inr (.inr rfl)))
  · next y _ hy =>
    split
    · next hzero => exact .inr (.inl ⟨y, .inr (constant?_eq_some.mp hy), hzero, rfl⟩)
    · split
      · next hone => exact .inr (.inr (.inr (.inl ⟨y, constant?_eq_some.mp hy, hone, rfl⟩)))
      · exact .inr (.inr (.inr (.inr rfl)))
  · exact .inr (.inr (.inr (.inr rfl)))

theorem quotient_cases (a b : Expr K) :
    (∃ x, a = .const x ∧ (x == 0) = true ∧ quotient a b = zero) ∨
      (∃ y, b = .const y ∧ (y == 1) = true ∧ quotient a b = a) ∨
      quotient a b = .binary .div a b := by
  unfold quotient
  split
  · next hzero =>
    obtain ⟨x, hx, hzero⟩ := isValue_eq_true.mp hzero
    exact .inl ⟨x, hx, hzero, rfl⟩
  · split
    · next hone =>
      obtain ⟨y, hy, hone⟩ := isValue_eq_true.mp hone
      exact .inr (.inl ⟨y, hy, hone, rfl⟩)
    · exact .inr (.inr rfl)

/-- Of two slopes one is enough only where both are equal constants. -/
theorem conditionalSlope_cases (condition dt df : Expr K) :
    (∃ x y, dt = .const x ∧ df = .const y ∧ (x == y) = true ∧
      conditionalSlope condition dt df = dt) ∨
      conditionalSlope condition dt df = .cond condition dt df := by
  unfold conditionalSlope
  split
  · next x y hx hy =>
    split
    · next hequal =>
      exact .inl ⟨x, y, constant?_eq_some.mp hx, constant?_eq_some.mp hy, hequal, rfl⟩
    · exact .inr rfl
  · exact .inr rfl

/-! ## Derivatives of operators -/

variable {t : FunctionTable K} {c : NameComparison} {v : Variable}

section Equations

-- expressions and their argument lists are differentiated together, by structural recursion, so
-- that each rule holds by definition
variable (t c v)

theorem derive_const (value : K) : derive t c v (.const value) = .ok zero := rfl

theorem derive_var (w : Variable) :
    derive t c v (.var w) = .ok (if c.same w v then one else zero) := rfl

theorem derive_plus (operand : Expr K) :
    derive t c v (.unary .plus operand) = derive t c v operand := rfl

theorem derive_minus (operand : Expr K) :
    derive t c v (.unary .minus operand) = (do return negate (← derive t c v operand)) := rfl

theorem derive_not (operand : Expr K) : derive t c v (.unary .not operand) = .ok zero := rfl

theorem derive_binary (op : BinaryOp) (left right : Expr K) :
    derive t c v (.binary op left right) =
      if op.isLogical then .ok zero
      else do
        let da ← derive t c v left
        let db ← derive t c v right
        return binarySlope op left right da db := rfl

theorem derive_cond (condition whenTrue whenFalse : Expr K) :
    derive t c v (.cond condition whenTrue whenFalse) = (do
      let dt ← derive t c v whenTrue
      let df ← derive t c v whenFalse
      return conditionalSlope condition dt df) := rfl

theorem derive_call (name : String) (arguments : List (Expr K)) :
    derive t c v (.call name arguments) =
      if !anyDependsOn c v arguments then .ok zero
      else do
        let d ← t.resolve name arguments.length
        match d.rule with
        | none => .error (.undifferentiableFunction name)
        | some rule =>
          if (rule arguments).length != arguments.length then
            .error (.undifferentiableFunction name)
          else return chain (rule arguments) (← deriveEach t c v arguments) := rfl

theorem derive_ext (name : String) (arguments : List (Expr K)) :
    derive t c v (.ext name arguments) =
      if anyDependsOn c v arguments then .error (.unrecognizedNode (Expr.ext name arguments).text)
      else .ok zero := rfl

theorem deriveEach_nil : deriveEach t c v [] = .ok [] := rfl

theorem deriveEach_cons (e : Expr K) (rest : List (Expr K)) :
    deriveEach t c v (e :: rest) = (do
      let d ← derive t c v e
      return d :: (← deriveEach t c v rest)) := rfl

end Equations

theorem derive_minus_eq {operand d : Expr K} (h : derive t c v operand = .ok d) :
    derive t c v (.unary .minus operand) = .ok (negate d) := by
  rw [derive_minus, h]
  rfl

theorem derive_logical_eq {op : BinaryOp} {left right : Expr K} (hop : op.isLogical = true) :
    derive t c v (.binary op left right) = .ok zero := by
  rw [derive_binary, if_pos hop]

theorem derive_binary_eq {op : BinaryOp} {left right da db : Expr K}
    (hop : op.isLogical = false) (hleft : derive t c v left = .ok da)
    (hright : derive t c v right = .ok db) :
    derive t c v (.binary op left right) = .ok (binarySlope op left right da db) := by
  rw [derive_binary, if_neg (by simp [hop]), hleft, hright]
  rfl

theorem derive_cond_eq {condition whenTrue whenFalse dt df : Expr K}
    (htrue : derive t c v whenTrue = .ok dt) (hfalse : derive t c v whenFalse = .ok df) :
    derive t c v (.cond condition whenTrue whenFalse) =
      .ok (conditionalSlope condition dt df) := by
  rw [derive_cond, htrue, hfalse]
  rfl

theorem derive_call_of_absent {name : String} {arguments : List (Expr K)}
    (h : anyDependsOn c v arguments = false) :
    derive t c v (.call name arguments) = .ok zero := by
  simp [derive_call, h]

theorem derive_call_eq {name : String} {arguments slopes : List (Expr K)}
    {d : FunctionDefinition K} {rule : DerivativeRule K} (h : anyDependsOn c v arguments = true)
    (hd : t.resolve name arguments.length = .ok d) (hrule : d.rule = some rule)
    (hlength : (rule arguments).length = arguments.length)
    (hslopes : deriveEach t c v arguments = .ok slopes) :
    derive t c v (.call name arguments) = .ok (chain (rule arguments) slopes) := by
  simp [derive_call, h, hd, hrule, hlength, hslopes, bind, Except.bind, pure, Except.pure]

/-! ## Derivatives that were found -/

section Found

variable {d : Expr K} {arguments : List (Expr K)} {name : String}

theorem derive_minus_eq_ok {operand : Expr K} (h : derive t c v (.unary .minus operand) = .ok d) :
    ∃ s, derive t c v operand = .ok s ∧ d = negate s := by
  rw [derive_minus, bind_eq_ok] at h
  obtain ⟨s, hs, h⟩ := h
  exact ⟨s, hs, (Except.ok.inj h).symm⟩

theorem derive_binary_eq_ok {op : BinaryOp} {left right : Expr K}
    (h : derive t c v (.binary op left right) = .ok d) :
    op.isLogical = true ∧ d = zero ∨ op.isLogical = false ∧ ∃ da db, derive t c v left = .ok da ∧
      derive t c v right = .ok db ∧ d = binarySlope op left right da db := by
  cases hop : op.isLogical with
  | true => exact .inl ⟨rfl, Except.ok.inj (h.symm.trans (derive_logical_eq hop))⟩
  | false =>
    rw [derive_binary, if_neg (by simp [hop]), bind_eq_ok] at h
    obtain ⟨da, hda, h⟩ := h
    obtain ⟨db, hdb, h⟩ := bind_eq_ok.mp h
    exact .inr ⟨rfl, da, db, hda, hdb, (Except.ok.inj h).symm⟩

theorem derive_cond_eq_ok {condition whenTrue whenFalse : Expr K}
    (h : derive t c v (.cond condition whenTrue whenFalse) = .ok d) :
    ∃ dt df, derive t c v whenTrue = .ok dt ∧ derive t c v whenFalse = .ok df ∧
      d = conditionalSlope condition dt df := by
  rw [derive_cond, bind_eq_ok] at h
  obtain ⟨dt, hdt, h⟩ := h
  obtain ⟨df, hdf, h⟩ := bind_eq_ok.mp h
  exact ⟨dt, df, hdt, hdf, (Except.ok.inj h).symm⟩

/-- A call that depends on the variable has a derivative by the rule of its function. -/
theorem derive_call_eq_ok (h : derive t c v (.call name arguments) = .ok d) :
    anyDependsOn c v arguments = false ∧ d = zero ∨
      anyDependsOn c v arguments = true ∧ ∃ definition rule slopes,
        t.resolve name arguments.length = .ok definition ∧ definition.rule = some rule ∧
          (rule arguments).length = arguments.length ∧
            deriveEach t c v arguments = .ok slopes ∧ d = chain (rule arguments) slopes := by
  cases hdepends : anyDependsOn c v arguments with
  | false =>
    exact .inl ⟨rfl, Except.ok.inj (h.symm.trans (derive_call_of_absent hdepends))⟩
  | true =>
    rw [derive_call, if_neg (by simp [hdepends]), bind_eq_ok] at h
    obtain ⟨definition, hdefinition, h⟩ := h
    cases hrule : definition.rule with
    | none =>
      rw [hrule] at h
      cases h
    | some rule =>
      simp only [hrule] at h
      split at h
      · cases h
      · next hlength =>
        obtain ⟨slopes, hslopes, h⟩ := bind_eq_ok.mp h
        rw [bne_iff_ne, not_not] at hlength
        exact .inr ⟨rfl, definition, rule, slopes, hdefinition, hrule, hlength, hslopes,
          (Except.ok.inj h).symm⟩

/-- An extension node that depends on the variable has no derivative. -/
theorem derive_ext_eq_ok (h : derive t c v (.ext name arguments) = .ok d) :
    anyDependsOn c v arguments = false ∧ d = zero := by
  rw [derive_ext] at h
  split at h
  · cases h
  · next hdepends => exact ⟨Bool.eq_false_iff.mpr hdepends, (Except.ok.inj h).symm⟩

end Found

end CircuitExpr.Expr
