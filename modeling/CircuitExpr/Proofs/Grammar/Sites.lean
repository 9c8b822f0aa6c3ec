import Mathlib
import CircuitExpr.Proofs.Grammar.Readings
import CircuitExpr.Proofs.Grammar.Words

/-!
# Free places in groups and arguments

A written form puts every operator with two operands in parentheses of its own, and arguments
behind one another with commas. So an operand is always read into a free place: in a group, as the
next argument, below a sign, behind a function or behind an operator.

## Main statements

* `OperatorTree.Holds`, `OperatorTree.Opens` — what is added around a free place goes there
* `OperatorTree.Opens.group` — a group is built in a free place
* `OperatorTree.Holds.operator` — an operator takes its left operand
* `OperatorTree.collapse_arguments` — arguments become one sequence
-/

namespace CircuitExpr

namespace OperatorTree

/-! ## Free places -/

/-- Where nodes are added that bind more strongly than operators with two operands. -/
def Opens (around : List OperatorTree → List OperatorTree) : Prop :=
  ∀ (new : OperatorTree) (ts ts' : List OperatorTree),
    IsTight new → Fills new ts ts' → add new (around ts) = .ok (around ts')

/-- Where all nodes but sequences are added. -/
def Holds (around : List OperatorTree → List OperatorTree) : Prop :=
  ∀ (new : OperatorTree) (ts ts' : List OperatorTree),
    new.operator.isSequence = false → Fills new ts ts' → add new (around ts) = .ok (around ts')

variable {around : List OperatorTree → List OperatorTree} {new : OperatorTree}

theorem holds_group (base : List OperatorTree) : Holds fun ts => node .root ts :: base := by
  intro new ts ts' hnew hfill
  have hinsert := hfill .root [] true rfl rfl
  rw [List.append_nil, List.append_nil] at hinsert
  rw [add_group hnew, hinsert]
  rfl

theorem holds_sequence (before base : List OperatorTree) :
    Holds fun ts => node .tuple (node .root ts :: before) :: base := by
  intro new ts ts' hnew hfill
  have hinsert := hfill .root [] true rfl rfl
  rw [List.append_nil, List.append_nil] at hinsert
  rw [add_sequence hnew, hinsert]
  rfl

theorem Holds.opens (h : Holds around) : Opens around := fun new _ _ hnew hfill =>
  h new _ _ hnew.not_sequence hfill

theorem Opens.hole (h : Opens around) {edge : List OperatorTree → List OperatorTree}
    (hedge : IsHole edge) : Opens fun ts => around (edge ts) := fun new _ _ hnew hfill =>
  h new _ _ hnew (hedge new _ _ hnew hfill)

theorem Opens.sign (h : Opens around) (s : Sign) : Opens fun ts => around [node s.operator ts] :=
  h.hole (isHole_id.sign s)

/-- What is added to a free place is there. -/
theorem Opens.fill (h : Opens around) (new : OperatorTree) (hnew : IsTight new) :
    add new (around []) = .ok (around [new]) := h new _ _ hnew (fills_nil new)

/-- Nothing is added to no group at all. -/
theorem Opens.ne_nil (h : Opens around) : around [] ≠ [] := by
  intro hnil
  have hfill := h.fill emptyGroup rfl
  rw [hnil] at hfill
  cases hfill

theorem IsTight.admits {op : Operator} (h : IsTight new) (hop : op.precedence ≤ 120) :
    op.admits new.operator = true := by
  have hexp : Operator.exp.precedence = 120 := rfl
  have hgroups : Operator.exp.isRightToLeft = false := rfl
  rw [IsTight, Operator.admits, hexp, hgroups, Bool.and_false, Bool.false_and, Bool.or_false,
    Bool.or_eq_true, decide_eq_true_eq] at h
  rw [Operator.admits]
  rcases h with h | h
  · simp [show op.precedence < new.operator.precedence by omega]
  · simp [h]

/-- Behind an operator its right operand has a free place. -/
theorem isHole_operand {op : Operator} (hmax : op.maxChildren = some 2) (hop : op.precedence ≤ 120)
    (left : OperatorTree) : IsHole fun ts => [node op (ts ++ [left])] :=
  fun _ _ _ hnew hfill =>
    fills_below (hnew.admits hop) (hfill op [left] false hmax (hnew.admits hop))

/-- Behind the name of a function its arguments have a free place. -/
theorem isHole_function (name : List Char) : IsHole fun ts => [node (.function name) ts] := by
  intro new ts ts' hnew hfill
  have hadmits : (Operator.function name).admits new.operator = true := by
    unfold IsTight at hnew
    cases hop : new.operator with
    | tuple | chain => rw [hop] at hnew; cases hnew
    | add | sub | mul | div | mod | exp | eq | ne | gt | lt | ge | le | and | or | assign _ =>
      rw [hop] at hnew
      cases hnew
    | _ => rfl
  have hinsert := hfill (.function name) [] false rfl hadmits
  rw [List.append_nil, List.append_nil] at hinsert
  exact fills_below hadmits hinsert

/-! ## Groups -/

/-- A group is closed where it was opened. -/
theorem Opens.group (h : Opens around) {body : List Token} {stack children : List OperatorTree}
    (hbody : buildBefore (some .closeParen) false body (node .root [] :: around []) = .ok stack)
    (hlength : 2 ≤ stack.length)
    (hclose : collapse stack = .ok (node .root children :: around []))
    (after : Option Token) (afterValue : Bool) :
    buildBefore after afterValue (.openParen :: (body ++ [.closeParen])) (around []) =
      .ok (around [node .root children]) := by
  have hadd : closeGroup stack = .ok (around [node .root children]) := by
    rw [closeGroup_eq hlength, hclose]
    exact h.fill (node .root children) rfl
  show buildBefore after false (body ++ [.closeParen]) (node .root [] :: around []) = _
  rw [buildBefore_append]
  refine (congrArg (Except.bind · _) hbody).trans ?_
  exact congrArg (Except.bind · _) hadd

/-- A group with a single tree in it. -/
theorem Opens.group_single (h : Opens around) {body : List Token} {t : OperatorTree}
    (hbody : buildBefore (some .closeParen) false body (node .root [] :: around []) =
      .ok (node .root [t] :: around [])) (after : Option Token) (afterValue : Bool) :
    buildBefore after afterValue (.openParen :: (body ++ [.closeParen])) (around []) =
      .ok (around [node .root [t]]) := by
  have hpos := List.length_pos_iff.mpr h.ne_nil
  refine h.group hbody ?_ ?_ after afterValue
  · rw [List.length_cons]
    omega
  · rw [collapse_group]
    rfl

/-! ## Operators -/

/-- An operator takes a node as its operand that binds more strongly. -/
theorem not_admits {outer inner : Operator} (hless : inner.precedence < outer.precedence)
    (hunary : inner.isUnary = false) : outer.admits inner = false := by
  have hne : (outer.precedence == inner.precedence) = false := by
    rw [beq_eq_false_iff_ne]
    omega
  rw [Operator.admits, hunary, hne, decide_eq_false (by omega)]
  rfl

/-- What is said of an operator between operands and of its node at once. -/
structure IsBetween (token : Token) (operator : Operator) : Prop where
  place : ∀ next stack, place true token next stack = add (node operator []) stack
  ends : token.endsValue = false
  /-- A name in front of the operator is no function. -/
  name : ∀ chars, ofName chars (some token) = .readName chars
  maxChildren : operator.maxChildren = some 2
  precedence : operator.precedence ≤ 120

theorem isBetween_of_node? {op : BinaryOp} {token : Token} {operator : Operator}
    (h : op.node? = some (token, operator)) : IsBetween token operator := by
  cases op <;> cases h <;> exact ⟨fun _ _ => rfl, rfl, fun _ => rfl, rfl, by decide⟩

/-- Signs bind more strongly than all operators but the power. -/
theorem precedence_of_node? {op : BinaryOp} {token : Token} {operator : Operator}
    (h : op.node? = some (token, operator)) (hpow : op ≠ .pow) : operator.precedence ≤ 100 := by
  cases op <;> cases h <;> first | exact absurd rfl hpow | decide

namespace IsBetween

variable {token : Token} {operator : Operator} (h : IsBetween token operator)

include h

theorem not_special :
    operator.isUnary = false ∧ operator.isLeaf = false ∧ operator.isRoot = false ∧
      operator.isSequence = false := by
  have hmax := h.maxChildren
  refine ⟨?_, ?_, ?_, ?_⟩
  · rw [Operator.isUnary, hmax]
    rfl
  · rw [Operator.isLeaf, hmax]
    rfl
  · cases operator <;> first | rfl | cases hmax
  · cases operator <;> first | rfl | cases hmax

/-- **An operator takes its left operand.** -/
theorem take (haround : Holds around) {t : OperatorTree}
    (ht : operator.precedence < t.operator.precedence) (next : Option Token) :
    OperatorTree.place true token next (around [t]) = .ok (around [node operator [t]]) := by
  obtain ⟨hunary, hleaf, hroot, hsequence⟩ := h.not_special
  rw [h.place]
  exact haround _ _ _ hsequence (fills_rotate (not_admits ht hunary) hleaf hroot)

end IsBetween

/-- A power takes its base from below the signs in front. -/
theorem Holds.power (h : Holds around) (signs : List Sign) {t : OperatorTree}
    (ht : 120 < t.operator.precedence) (next : Option Token) :
    place true .power next (around (under signs [t])) =
      .ok (around (under signs [node .exp [t]])) :=
  h _ _ _ rfl (fills_power (not_admits ht rfl) signs)

/-! ## Arguments -/

/-- A group with one tree in it. -/
def enclosed (t : OperatorTree) : OperatorTree := node .root [t]

/-- The groups on the stack inside the parentheses of a call, the last argument first. -/
def argumentStack (base : List OperatorTree) : List OperatorTree → List OperatorTree
  | [] => node .root [] :: base
  | [t] => node .root [t] :: base
  | last :: before => node .tuple ((last :: before).map enclosed) :: emptyGroup :: base

/-- What the parentheses of a call hold. -/
def argumentTrees : List OperatorTree → List OperatorTree
  | [] => []
  | [t] => [t]
  | last :: before => [node .tuple ((last :: before).map enclosed)]

theorem argumentTrees_of_length {ts : List OperatorTree} (h : 2 ≤ ts.length) :
    argumentTrees ts = [node .tuple (ts.map enclosed)] := by
  cases ts with
  | nil => cases h
  | cons last before =>
    cases before with
    | nil => exact absurd h (by simp)
    | cons t more => rfl

variable (base : List OperatorTree)

/-- Behind a comma the next argument has a free place. -/
theorem place_comma (last : OperatorTree) (before : List OperatorTree) (afterValue : Bool)
    (next : Option Token) :
    place afterValue .comma next (argumentStack base (last :: before)) =
      .ok (node .tuple (node .root [] :: (last :: before).map enclosed) :: emptyGroup :: base) := by
  have hcomma : (node .tuple []).operator = .tuple := rfl
  cases before with
  | nil => exact add_comma_group hcomma _ _
  | cons t more => exact add_comma_sequence hcomma _ _

/-- **Arguments become one sequence.** -/
theorem collapse_arguments (ts : List OperatorTree) :
    collapse (argumentStack base ts) = .ok (node .root (argumentTrees ts) :: base) := by
  match ts with
  | [] | [_] | _ :: _ :: _ => exact collapse_group _ _

theorem length_argumentStack (ts : List OperatorTree) :
    base.length + 1 ≤ (argumentStack base ts).length := by
  match ts with
  | [] | [_] | _ :: _ :: _ => simp [argumentStack]

end OperatorTree

end CircuitExpr
