import Mathlib
import CircuitExpr.Proofs.Evaluation.Steps
import CircuitExpr.Proofs.Grammar.Readings

/-!
# Operator trees of powers

Operator trees group a row of powers to the left and have minus signs on top of it. Reading takes
the row apart, gives the signs to the first operand and groups the powers to the right. Here this
is shown of trees of any kind, whether or not a text leads to them: nothing is lost or exchanged,
and what is wrong with an operand is wrong with the row. Groups in parentheses, and signs on top of
anything else, stay as they are.

## Main statements

* `Reading.factors_of_ne_exp` — what is no power is one operand
* `OperatorTree.factors_powerRow` — a row of powers contributes its operands in order
* `OperatorTree.toExpr_regroups` — rows of powers under minus signs, and everything else
-/

namespace CircuitExpr

open List (Forall₂)

/-! ## Trees with minus signs on top -/

namespace Reading

open OperatorTree

variable {lifted : Lifted} {t : OperatorTree} {r : Reading}

theorem map_negateTimes_zero (x : Except ReadError (Expr Float)) :
    x.map (Expr.negateTimes 0) = x := by
  cases x <;> rfl

/-- What is one expression everywhere is its plain expression, with signs or as an operand. -/
theorem IsUniform.eq_plain (h : IsUniform r) :
    (∀ n, r.signed n = r.plain.map (Expr.negateTimes n)) ∧ r.factors = r.plain.map ([·]) := by
  obtain ⟨x, hsigned, hfactors⟩ := h
  have hplain : r.plain = x := (hsigned 0).trans (map_negateTimes_zero x)
  rw [hplain]
  exact ⟨hsigned, hfactors⟩

theorem isUniform_ofError (e : ReadError) : IsUniform (ofError e) := isUniform_ofExpr _

theorem isUniform_ofSequence (children : List Reading) : IsUniform (ofSequence children) :=
  ⟨.error (.unsupportedOperator "Tuple"), fun _ => rfl, rfl⟩

theorem isUniform_ofFold (op : BinaryOp) (children : List Reading) :
    IsUniform (ofFold op children) := by
  unfold ofFold
  split
  · exact isUniform_ofError _
  · exact isUniform_ofExpr _

theorem isUniform_ofBinary (op : BinaryOp) (children : List Reading) :
    IsUniform (ofBinary op children) := by
  unfold ofBinary
  split
  · exact isUniform_ofExpr _
  · exact isUniform_ofError _

theorem isUniform_ofNot (children : List Reading) : IsUniform (ofNot children) := by
  unfold ofNot
  split
  · exact isUniform_ofExpr _
  · exact isUniform_ofError _

theorem isUniform_ofFunction (name : List Char) (children : List Reading) :
    IsUniform (ofFunction name children) := by
  cases children <;> exact isUniform_ofExpr _

/-- Only powers and minus signs are read in several ways. -/
theorem isUniform_of_ne (hexp : t.operator ≠ .exp) (hneg : t.operator ≠ .neg) :
    IsUniform (ofTree lifted t) := by
  obtain ⟨op, children⟩ := t
  show IsUniform (ofNode lifted op (ofTrees lifted children))
  cases op with
  | exp => exact absurd rfl hexp
  | neg => exact absurd rfl hneg
  | root => exact isUniform_ofGroup _
  | add | mul => exact isUniform_ofFold _ _
  | sub | div | mod | eq | ne | gt | lt | ge | le | and | or => exact isUniform_ofBinary _ _
  | not => exact isUniform_ofNot _
  | function name => exact isUniform_ofFunction name _
  | tuple => exact isUniform_ofSequence _
  | number | boolean | readName => exact isUniform_ofExpr _
  | quoted | chain | assign | writeName => exact isUniform_ofError _

/-- What is no power is one operand of a row of powers. -/
theorem factors_of_ne_exp (h : t.operator ≠ .exp) :
    (ofTree lifted t).factors = (t.toExpr lifted).map ([·]) := by
  by_cases hneg : t.operator = .neg
  · -- a minus sign is an operand together with what it is in front of
    obtain ⟨op, children⟩ := t
    obtain rfl : op = .neg := hneg
    match children with
    | [] => rfl
    | [_] => rfl
    | _ :: _ :: _ => rfl
  · exact (isUniform_of_ne h hneg).eq_plain.2

end Reading

namespace OperatorTree

open Reading (ofTree)

variable {lifted : Lifted} {t base : OperatorTree} {exponents : List OperatorTree}

/-- A tree with minus signs on top. -/
def negated : Nat → OperatorTree → OperatorTree
  | 0, t => t
  | k + 1, t => node .neg [negated k t]

/-- A group in parentheses. -/
def grouped (t : OperatorTree) : OperatorTree := node .root [t]

/-- A row of powers, grouped to the left. -/
def powerRow (base : OperatorTree) (exponents : List OperatorTree) : OperatorTree :=
  exponents.foldl (fun t exponent => node .exp [exponent, t]) base

theorem signed_negated (k n : Nat) (t : OperatorTree) :
    (ofTree lifted (negated k t)).signed n = (ofTree lifted t).signed (n + k) := by
  induction k generalizing n with
  | zero => rfl
  | succ k ih =>
    have hstep : (ofTree lifted (negated (k + 1) t)).signed n =
        (ofTree lifted (negated k t)).signed (n + 1) := rfl
    rw [hstep, ih, Nat.add_right_comm, Nat.add_assoc]

theorem toExpr_negated (k : Nat) (t : OperatorTree) :
    (negated k t).toExpr lifted = (ofTree lifted t).signed k := by
  rw [toExpr, Reading.plain, signed_negated, Nat.zero_add]

theorem toExpr_grouped (t : OperatorTree) : (grouped t).toExpr lifted = t.toExpr lifted :=
  Reading.map_negateTimes_zero _

/-! ## Rows of powers -/

theorem powerRow_concat (base exponent : OperatorTree) (exponents : List OperatorTree) :
    powerRow base (exponents ++ [exponent]) = node .exp [exponent, powerRow base exponents] :=
  List.foldl_concat ..

/-- **A row of powers contributes its operands**, from left to right. -/
theorem factors_powerRow (h : base.operator ≠ .exp) (exponents : List OperatorTree) :
    (ofTree lifted (powerRow base exponents)).factors =
      (base :: exponents).mapM (toExpr lifted) := by
  induction exponents using List.reverseRecOn with
  | nil =>
    rw [List.mapM_cons, List.mapM_nil]
    exact (Reading.factors_of_ne_exp h).trans (by cases toExpr lifted base <;> rfl)
  | append_singleton exponents exponent ih =>
    rw [powerRow_concat, ← List.cons_append, List.mapM_append, ← ih, List.mapM_cons, List.mapM_nil]
    have hstep : (ofTree lifted (node .exp [exponent, powerRow base exponents])).factors = do
        let es ← (ofTree lifted (powerRow base exponents)).factors
        return es ++ [← exponent.toExpr lifted] := rfl
    rw [hstep]
    simp only [bind_assoc, pure_bind]

/-- Signs on top of a row of powers are left to the first operand. -/
theorem signed_powerRow (h : base.operator ≠ .exp) (hexponents : exponents ≠ []) (k : Nat) :
    (ofTree lifted (powerRow base exponents)).signed k =
      (base :: exponents).mapM (toExpr lifted) >>= Expr.signedPowers k := by
  rw [← factors_powerRow h]
  obtain ⟨before, last, rfl⟩ := (List.eq_nil_or_concat' exponents).resolve_left hexponents
  rw [powerRow_concat]
  rfl

/--
A tree is read as the power of these operands, grouped to the right and with minus signs in front
of the first of them. It fails where one of them does, as the first that does.
-/
structure ReadAsPower (lifted : Lifted) (t : OperatorTree) (negations : Nat) (base : OperatorTree)
    (exponents : List OperatorTree) : Prop where
  ok_iff : ∀ e, t.toExpr lifted = .ok e ↔ ∃ b es, base.toExpr lifted = .ok b ∧
    Forall₂ (fun exponent e => exponent.toExpr lifted = .ok e) exponents es ∧
      e = Expr.powers (Expr.negateTimes negations b) es
  error_iff : ∀ x, t.toExpr lifted = .error x ↔
    FailsFirst (toExpr lifted) (base :: exponents) x
  fails_iff : (∃ x, t.toExpr lifted = .error x) ↔
    ∃ operand ∈ base :: exponents, ∃ x, operand.toExpr lifted = .error x

theorem readAsPower {negations : Nat} (h : t.toExpr lifted =
    (base :: exponents).mapM (toExpr lifted) >>= Expr.signedPowers negations) :
    ReadAsPower lifted t negations base exponents := by
  have herror : ∀ x, t.toExpr lifted = .error x ↔
      FailsFirst (toExpr lifted) (base :: exponents) x := by
    intro x
    rw [h, ← mapM_eq_error_iff]
    cases hall : (base :: exponents).mapM (toExpr lifted) with
    | error y =>
      exact ⟨fun h => congrArg _ (Except.error.inj h), fun h => congrArg _ (Except.error.inj h)⟩
    | ok all =>
      -- there is a first operand, so the power exists
      cases mapM_eq_ok_iff.mp hall with
      | cons => exact ⟨nofun, nofun⟩
  refine ⟨fun e => ?_, herror, ?_⟩
  · rw [h, bind_eq_ok]
    simp only [mapM_eq_ok_iff, List.forall₂_cons_left_iff]
    constructor
    · rintro ⟨_, ⟨b, es, hb, hes, rfl⟩, he⟩
      exact ⟨b, es, hb, hes, (Except.ok.inj he).symm⟩
    · rintro ⟨b, es, hb, hes, rfl⟩
      exact ⟨_, ⟨b, es, hb, hes, rfl⟩, rfl⟩
  · simp only [herror, exists_failsFirst_iff]

/-- A row whose first operand is no power. -/
theorem readAsPower_powerRow (h : base.operator ≠ .exp) (hexponents : exponents ≠ []) (k : Nat) :
    ReadAsPower lifted (negated k (powerRow base exponents)) k base exponents :=
  readAsPower (by rw [toExpr_negated, signed_powerRow h hexponents])

/-- A group is one operand, whatever is in it. -/
theorem readAsPower_grouped (t : OperatorTree) (hexponents : exponents ≠ []) (k : Nat) :
    ReadAsPower lifted (negated k (powerRow (grouped t) exponents)) k t exponents := by
  have hgroup : (grouped t).operator ≠ Operator.exp := nofun
  refine readAsPower ?_
  rw [toExpr_negated, signed_powerRow hgroup hexponents, List.mapM_cons, List.mapM_cons,
    toExpr_grouped]

/-- Signs on top of anything but powers. -/
theorem toExpr_negated_of_ne (hexp : t.operator ≠ .exp) (hneg : t.operator ≠ .neg) (k : Nat) :
    (negated k t).toExpr lifted = (t.toExpr lifted).map (Expr.negateTimes k) := by
  rw [toExpr_negated]
  exact (Reading.isUniform_of_ne hexp hneg).eq_plain.1 k

/--
**Powers are regrouped without loss.** A row of powers, grouped to the left and under any number of
minus signs, is read as the power grouped to the right, with the signs in front of the first
operand alone. Minus signs on top of any other tree are in front of all that it is read as. A group
in parentheses is read as what is in it and is one operand, even where it holds a row of powers.
-/
theorem toExpr_regroups (lifted : Lifted) :
    (∀ k base first rest, base.operator ≠ .exp →
      ReadAsPower lifted (negated k (powerRow base (first :: rest))) k base (first :: rest)) ∧
    (∀ k t, t.operator ≠ .exp → t.operator ≠ .neg →
      (negated k t).toExpr lifted = (t.toExpr lifted).map (Expr.negateTimes k)) ∧
    (∀ k t first rest,
      ReadAsPower lifted (negated k (powerRow (grouped t) (first :: rest))) k t (first :: rest)) ∧
    ∀ k t, (negated k (grouped t)).toExpr lifted =
      (t.toExpr lifted).map (Expr.negateTimes k) := by
  refine ⟨fun k base first rest h => readAsPower_powerRow h (List.cons_ne_nil _ _) k,
    fun k t hexp hneg => toExpr_negated_of_ne hexp hneg k,
    fun k t first rest => readAsPower_grouped t (List.cons_ne_nil _ _) k, fun k t => ?_⟩
  have hexp : (grouped t).operator ≠ Operator.exp := nofun
  have hneg : (grouped t).operator ≠ Operator.neg := nofun
  rw [toExpr_negated_of_ne hexp hneg, toExpr_grouped]

/-- A name by itself. -/
def leaf (name : String) : OperatorTree := node (.readName name.toList) []

/--
`-a ^ b ^ c` has its sign on `a`, `(a ^ b) ^ c` keeps its group, and of two operands that cannot be
read the first is to blame.
-/
theorem toExpr_regroups_names :
    let a : Expr Float := .var (.parameter "a")
    let b : Expr Float := .var (.parameter "b")
    let c : Expr Float := .var (.parameter "c")
    (negated 1 (powerRow (leaf "a") [leaf "b", leaf "c"])).toExpr ⟨[], [], []⟩ =
        .ok (.binary .pow (.unary .minus a) (.binary .pow b c)) ∧
      (powerRow (grouped (powerRow (leaf "a") [leaf "b"])) [leaf "c"]).toExpr ⟨[], [], []⟩ =
        .ok (.binary .pow (.binary .pow a b) c) ∧
      (powerRow (leaf "a") [node .neg [], node .chain []]).toExpr ⟨[], [], []⟩ =
        .error (.operands "-" 1 0) := by
  obtain ⟨hrow, -, hgroup, -⟩ := toExpr_regroups ⟨[], [], []⟩
  refine ⟨?_, ?_, ?_⟩
  · exact ((hrow 1 (leaf "a") (leaf "b") [leaf "c"] nofun).ok_iff _).mpr
      ⟨_, _, rfl, .cons rfl (.cons rfl .nil), rfl⟩
  · exact ((hgroup 0 (powerRow (leaf "a") [leaf "b"]) (leaf "c") []).ok_iff _).mpr
      ⟨_, _, rfl, .cons rfl .nil, rfl⟩
  · refine ((hrow 0 (leaf "a") (node .neg []) [node .chain []] nofun).error_iff _).mpr ?_
    exact ⟨[leaf "a"], node .neg [], [node .chain []], rfl,
      List.forall_mem_singleton.mpr ⟨_, rfl⟩, rfl⟩

end OperatorTree

end CircuitExpr
