import Mathlib
import CircuitExpr.Proofs.Grammar.Frames

/-!
# The operators of a row of tokens and of its tree

A tree is put together from tokens by moving nodes about: below others, out of sequences, between
groups. No node gets lost on the way and none is made up, apart from groups and sequences. Nor
does a node get more operands than its operator takes, groups apart.

## Main statements

* `OperatorTree.operators_insert` — adding at the right edge adds the operators
* `OperatorTree.Stacked.place` — what one token does to the groups that are not complete yet
* `OperatorTree.operators_ofTokens` — **a tree has the operators of its tokens**
-/

namespace CircuitExpr

/-! ## The operators of a tree -/

namespace Operator

/-- Groups and sequences, which are left open while tokens are read. -/
def isOpen (op : Operator) : Bool := op.isRoot || op.isSequence

/-- What a node contributes to the operators of a tree: groups and sequences do not count. -/
def own (op : Operator) : Multiset Operator := if op.isOpen then 0 else {op}

/-- Whether a node may have so many children. -/
def takes (op : Operator) (count : Nat) : Bool :=
  op.isOpen || op.maxChildren.all (count ≤ ·)

@[simp] theorem isOpen_root : root.isOpen = true := rfl

@[simp] theorem own_root : root.own = 0 := rfl

theorem own_of_isOpen {op : Operator} (h : op.isOpen = true) : op.own = 0 := if_pos h

theorem own_of_not_isOpen {op : Operator} (h : op.isOpen = false) : op.own = {op} := by
  simp [own, h]

theorem takes_of_isOpen {op : Operator} (h : op.isOpen = true) (count : Nat) :
    op.takes count = true := by
  simp [takes, h]

theorem isOpen_of_isRoot {op : Operator} (h : op.isRoot = true) : op.isOpen = true := by
  simp [isOpen, h]

theorem isOpen_of_isSequence {op : Operator} (h : op.isSequence = true) : op.isOpen = true := by
  simp [isOpen, h]

@[simp] theorem takes_zero (op : Operator) : op.takes 0 = true := by
  simp only [takes, Bool.or_eq_true]
  cases op.maxChildren <;> simp

theorem le_of_takes {op : Operator} {n count : Nat} (h : op.takes count = true)
    (hopen : op.isOpen = false) (hmax : op.maxChildren = some n) : count ≤ n := by
  simpa [takes, hopen, hmax] using h

/-- Nodes that are no leaves take a child. -/
theorem takes_one {op : Operator} (h : op.isLeaf = false) : op.takes 1 = true := by
  cases op <;> first | rfl | cases h

/-- A node that is not full takes one child more. -/
theorem takes_succ {op : Operator} {count : Nat} (h : op.takes count = true)
    (hfull : (op.maxChildren == some count) = false) : op.takes (count + 1) = true := by
  rw [takes, Bool.or_eq_true] at h ⊢
  refine h.imp_right fun h => ?_
  cases hmax : op.maxChildren with
  | none => rfl
  | some n =>
    have hle : count ≤ n := by simpa [hmax] using h
    have hne : n ≠ count := by simpa [hmax] using hfull
    exact decide_eq_true (by omega)

end Operator

namespace OperatorTree

mutual

/-- The operators of a tree, each as often as it occurs, without groups and sequences. -/
def operators : OperatorTree → Multiset Operator
  | node op children => op.own + operatorsEach children

/-- The operators of several trees. -/
def operatorsEach : List OperatorTree → Multiset Operator
  | [] => 0
  | t :: rest => t.operators + operatorsEach rest

end

mutual

/-- Whether no node has more children than its operator takes, groups and sequences apart. -/
def fits : OperatorTree → Bool
  | node op children => op.takes children.length && fitsEach children

/-- Whether several trees have no nodes with too many children. -/
def fitsEach : List OperatorTree → Bool
  | [] => true
  | t :: rest => t.fits && fitsEach rest

end

attribute [simp] operators operatorsEach fits fitsEach

@[simp] theorem operators_append (t child : OperatorTree) :
    (t.append child).operators = t.operators + child.operators := by
  cases t
  simp only [append, operators, operatorsEach]
  abel

@[simp] theorem operator_append (t child : OperatorTree) :
    (t.append child).operator = t.operator := by
  cases t
  rfl

/-- Groups and sequences take any number of children. -/
theorem fits_append {t child : OperatorTree} (hopen : t.operator.isOpen = true)
    (ht : t.fits = true) (hchild : child.fits = true) : (t.append child).fits = true := by
  cases t
  simp only [fits, Bool.and_eq_true, append, fitsEach] at ht ⊢
  exact ⟨Operator.takes_of_isOpen hopen _, hchild, ht.2⟩

/-! ## Adding at the right edge -/

/-- A node that is to be added: one without operands yet, or a group. -/
def isFresh (t : OperatorTree) : Bool := t.operator.isRoot || t.children.isEmpty

/-- A fresh node takes the operand that it finds in its place. -/
theorem fits_append_isFresh {new child : OperatorTree} (hnew : new.isFresh = true)
    (hleaf : new.operator.isLeaf = false) (hfits : new.fits = true) (hchild : child.fits = true) :
    (new.append child).fits = true := by
  rw [isFresh, Bool.or_eq_true] at hnew
  rcases hnew with hroot | hempty
  · exact fits_append (Operator.isOpen_of_isRoot hroot) hfits hchild
  · obtain ⟨op, children⟩ := new
    cases List.isEmpty_iff.mp hempty
    simpa [append, hchild] using Operator.takes_one hleaf

/-- A sequence that is to be added has nothing in it. -/
theorem operators_of_isSequence {new : OperatorTree} (hnew : new.isFresh = true)
    (hsequence : new.operator.isSequence = true) : new.operators = 0 := by
  obtain ⟨op, children⟩ := new
  have hroot : op.isRoot = false := by cases op <;> first | rfl | cases hsequence
  have hchildren : children = [] := by
    simpa [isFresh, hroot, OperatorTree.children] using hnew
  have hown : op.own = 0 := Operator.own_of_isOpen (Operator.isOpen_of_isSequence hsequence)
  simp [hchildren, hown]

/-- A node that takes the place of an operand has it as its own operand. -/
theorem rotate_eq_ok {op : Operator} {last new t : OperatorTree} {before : List OperatorTree}
    (h : rotate op last before new = .ok t) :
    new.operator.isLeaf = false ∧ t = node op (new.append last :: before) := by
  unfold rotate at h
  split at h
  · cases h
  · next hleaf =>
    split at h
    · cases h
    · split at h
      · cases h
      · exact ⟨by simpa using hleaf, (Except.ok.inj h).symm⟩

/-- **Adding at the right edge adds the operators.** -/
theorem operators_insert {new t t' : OperatorTree} {top : Bool} (h : insert new top t = .ok t') :
    t'.operators = t.operators + new.operators := by
  fun_induction insert new top t generalizing t' with
  | case1 | case2 | case4 | case5 | case6 => cases h
  | case3 top op =>
    cases h
    simp
  | case7 top op last before _ _ _ _ last' hlast ih =>
    cases h
    simp only [operators, operatorsEach, ih hlast]
    abel
  | case8 top op last before =>
    obtain ⟨-, rfl⟩ := rotate_eq_ok h
    simp only [operators, operatorsEach, operators_append]
    abel
  | case9 top op last before =>
    cases h
    simp only [operators, operatorsEach]
    abel

/-- Adding at the right edge gives no node too many operands. -/
theorem fits_insert {new t t' : OperatorTree} {top : Bool} (hnew : new.isFresh = true)
    (hfits : new.fits = true) (ht : t.fits = true) (h : insert new top t = .ok t') :
    t'.fits = true := by
  fun_induction insert new top t generalizing t' with
  | case1 | case2 | case4 | case5 | case6 => cases h
  | case3 top op _ hleaf =>
    cases h
    simp [hfits, Operator.takes_one (Bool.not_eq_true _ ▸ hleaf)]
  | case7 top op last before _ _ _ _ last' hlast ih =>
    cases h
    simp only [fits, fitsEach, Bool.and_eq_true, List.length_cons] at ht ⊢
    exact ⟨ht.1, ih ht.2.1 hlast, ht.2.2⟩
  | case8 top op last before =>
    obtain ⟨hleaf, rfl⟩ := rotate_eq_ok h
    simp only [fits, fitsEach, Bool.and_eq_true, List.length_cons] at ht ⊢
    exact ⟨ht.1, fits_append_isFresh hnew hleaf hfits ht.2.1, ht.2.2⟩
  | case9 top op last before _ _ hfull =>
    cases h
    simp only [fits, fitsEach, Bool.and_eq_true, List.length_cons] at ht ⊢
    exact ⟨Operator.takes_succ ht.1 (Bool.not_eq_true _ ▸ hfull), hfits, ht.2⟩

/-! ## Groups that are not complete yet -/

/-- Groups and sequences that are not complete yet, with these operators in them. -/
inductive Stacked : List OperatorTree → Multiset Operator → Prop
  | nil : Stacked [] 0
  | cons {t : OperatorTree} {stack : List OperatorTree} {rest ops : Multiset Operator} :
    t.operator.isOpen = true → t.fits = true → Stacked stack rest →
      t.operators + rest = ops → Stacked (t :: stack) ops

section Stack

variable {stack stack' : List OperatorTree} {ops : Multiset Operator}

theorem Stacked.emptyGroup (h : Stacked stack ops) :
    Stacked (OperatorTree.emptyGroup :: stack) ops :=
  .cons rfl rfl h (by simp [OperatorTree.emptyGroup])

/-- A node that is complete becomes an operand of the one below it. -/
theorem Stacked.append {t child : OperatorTree} {rest : Multiset Operator}
    (hopen : t.operator.isOpen = true) (ht : t.fits = true) (hchild : child.fits = true)
    (h : Stacked stack rest) (hops : child.operators + (t.operators + rest) = ops) :
    Stacked (t.append child :: stack) ops := by
  refine .cons ((operator_append t child).symm ▸ hopen) (fits_append hopen ht hchild) h ?_
  rw [operators_append, ← hops]
  abel

theorem Stacked.collapseTo {goal : Operator} {done done' : OperatorTree} (hdone : done.fits = true)
    (hstack : Stacked stack ops) (h : collapseTo goal done stack = .ok (done', stack')) :
    done'.fits = true ∧
      ∃ ops', Stacked stack' ops' ∧ done'.operators + ops' = done.operators + ops := by
  fun_induction OperatorTree.collapseTo goal done stack generalizing ops with
  | case1 => cases h
  | case2 done higher stack hprecedence ih =>
    cases hstack with
    | cons hopen hfits hrest hops =>
      obtain ⟨hfits', ops', hstack', hops'⟩ := ih (fits_append hopen hfits hdone) hrest h
      refine ⟨hfits', ops', hstack', hops'.trans ?_⟩
      rw [operators_append, ← hops]
      abel
  | case3 done higher stack hprecedence =>
    cases h
    exact ⟨hdone, ops, hstack, rfl⟩

/-- A comma or a semicolon adds a sequence, which does not count. -/
theorem Stacked.addSequence {op : Operator} {current : OperatorTree} (hop : op.isSequence = true)
    (hstack : Stacked (current :: stack) ops) (h : addSequence op current stack = .ok stack') :
    Stacked stack' ops := by
  have hopen : op.isOpen = true := Operator.isOpen_of_isSequence hop
  have hown : op.own = 0 := Operator.own_of_isOpen hopen
  obtain ⟨outer, children⟩ := current
  cases hstack with
  | cons hcurrent hfits hrest hops =>
    unfold OperatorTree.addSequence at h
    split at h
    · cases h
      refine .append hcurrent hfits rfl hrest ?_
      simp [OperatorTree.emptyGroup, ← hops]
    · split at h
      · cases h
        refine .cons hopen ?_ hrest.emptyGroup ?_
        · simpa [OperatorTree.emptyGroup, Operator.takes_of_isOpen hopen] using hfits
        · rw [← hops]
          simp [OperatorTree.emptyGroup, hown]
      · split at h
        · split at h
          · next outer last before hcurrent' =>
            cases hcurrent'
            cases h
            have hcurrent : outer.isOpen = true := hcurrent
            simp only [fits, fitsEach, Bool.and_eq_true] at hfits
            refine .cons hopen ?_ (.cons hcurrent ?_ hrest rfl) ?_
            · simp [OperatorTree.emptyGroup, Operator.takes_of_isOpen hopen, hfits.2.1]
            · simp [Operator.takes_of_isOpen hcurrent, hfits.2.2]
            · rw [← hops]
              simp only [operators, operatorsEach, OperatorTree.emptyGroup, hown,
                Operator.own_root]
              abel
          · cases h
        · split at h
          · cases h
          · next done rest hdone =>
            cases h
            obtain ⟨hfits', ops', hstack', hops'⟩ := hrest.collapseTo hfits hdone
            refine .cons hopen ?_ hstack' ?_
            · simp [Operator.takes_of_isOpen hopen, hfits']
            · rw [← hops, ← hops']
              simp [hown]

/-- **Adding a node adds its operators.** -/
theorem Stacked.add {new : OperatorTree} (hnew : new.isFresh = true) (hfits : new.fits = true)
    (hstack : Stacked stack ops) (h : add new stack = .ok stack') :
    Stacked stack' (ops + new.operators) := by
  cases hstack with
  | nil => cases h
  | @cons current stack rest ops hcurrent hfits' hrest hops =>
    simp only [OperatorTree.add] at h
    split at h
    · next hsequence =>
      rw [operators_of_isSequence hnew hsequence, add_zero]
      exact .addSequence hsequence (.cons hcurrent hfits' hrest hops) h
    · split at h
      · split at h
        · next outer last before _ =>
          obtain ⟨last', hlast, rfl⟩ := map_eq_ok h
          simp only [fits, fitsEach, Bool.and_eq_true, List.length_cons] at hfits'
          refine .cons hcurrent ?_ hrest ?_
          · simp [hfits'.1, fits_insert hnew hfits hfits'.2.1 hlast, hfits'.2.2]
          · rw [← hops]
            simp only [operators, operatorsEach, operators_insert hlast]
            abel
        · cases h
      · obtain ⟨current', hcurrent', rfl⟩ := map_eq_ok h
        refine .cons ?_ (fits_insert hnew hfits hfits' hcurrent') hrest ?_
        · obtain ⟨children, rfl⟩ := insert_node hcurrent'
          exact hcurrent
        · rw [← hops, operators_insert hcurrent']
          abel

/-- Sequences end up in the group that they stand in, which is then on top. -/
theorem Stacked.collapseSequences {current : OperatorTree} (hstack : Stacked (current :: stack) ops)
    (h : collapseSequences current stack = .ok stack') :
    Stacked stack' ops ∧ ∀ t ∈ stack'.head?, t.operator.isRoot = true := by
  fun_induction OperatorTree.collapseSequences current stack with
  | case1 | case3 | case4 => cases h
  | case2 current hroot | case5 current higher stack hroot =>
    cases h
    exact ⟨hstack, by simpa using hroot⟩
  | case6 current higher stack hroot hsequence ih =>
    cases hstack with
    | cons hopen hfits hrest hops =>
      cases hrest with
      | cons hopen' hfits' hrest' hops' =>
        exact ih (.append hopen' hfits' hfits hrest' (by rw [hops', hops])) h
  | case7 current higher stack hroot hsequence =>
    cases hstack with
    | cons hopen => simp_all [Operator.isOpen]

theorem Stacked.collapse (hstack : Stacked stack ops) (h : collapse stack = .ok stack') :
    Stacked stack' ops ∧ ∀ t ∈ stack'.head?, t.operator.isRoot = true := by
  cases stack with
  | nil => cases h
  | cons current stack => exact hstack.collapseSequences h

/-- A group that is closed goes into the one below. -/
theorem Stacked.closeGroup (hstack : Stacked stack ops) (h : closeGroup stack = .ok stack') :
    Stacked stack' ops := by
  unfold OperatorTree.closeGroup at h
  split at h
  · cases h
  · split at h
    · cases h
    · cases h
    · next group rest hcollapse =>
      obtain ⟨hstacked, hroot⟩ := hstack.collapse hcollapse
      cases hstacked with
      | cons _ hfits hrest hops =>
        have hfresh : group.isFresh = true := by simp [isFresh, hroot group rfl]
        rw [← hops, add_comm]
        exact hrest.add hfresh hfits h

end Stack

/-! ## From tokens -/

/-- The operators of a row of tokens, without parentheses, commas and semicolons. -/
def operatorsOf : Bool → List Token → Multiset Operator
  | _, [] => 0
  | afterValue, token :: rest =>
    (operatorOf afterValue token rest.head?).own + operatorsOf token.endsValue rest

/-- **What one token adds to the groups.** -/
theorem Stacked.place {stack stack' : List OperatorTree} {ops : Multiset Operator}
    {afterValue : Bool} {token : Token} {next : Option Token} (hstack : Stacked stack ops)
    (h : place afterValue token next stack = .ok stack') :
    Stacked stack' (ops + (operatorOf afterValue token next).own) := by
  by_cases hopen : token = .openParen
  · subst hopen
    cases h
    simpa [operatorOf] using hstack.emptyGroup
  · by_cases hclose : token = .closeParen
    · subst hclose
      simpa [operatorOf] using hstack.closeGroup h
    · rw [place_eq_add hopen hclose] at h
      have hadd := hstack.add (by simp [isFresh, children]) (by simp [Operator.takes_zero]) h
      simpa using hadd

theorem Stacked.build {stack stack' : List OperatorTree} {ops : Multiset Operator}
    {afterValue : Bool} {tokens : List Token} (hstack : Stacked stack ops)
    (h : build afterValue tokens stack = .ok stack') :
    Stacked stack' (ops + operatorsOf afterValue tokens) := by
  induction tokens generalizing afterValue stack ops with
  | nil =>
    cases h
    simpa [operatorsOf] using hstack
  | cons token rest ih =>
    rw [OperatorTree.build] at h
    split at h
    · cases h
    · next placed hplace =>
      rw [operatorsOf, ← add_assoc]
      exact ih (hstack.place hplace) h

/-- **A tree has the operators of its tokens**, and no node has too many operands. -/
theorem operators_ofTokens {tokens : List Token} {t : OperatorTree}
    (h : ofTokens tokens = .ok t) :
    t.operators = operatorsOf false tokens ∧ t.fits = true := by
  obtain ⟨stack, hbuild, h⟩ := bind_eq_ok.mp h
  obtain ⟨closed, hcollapse, h⟩ := bind_eq_ok.mp h
  obtain ⟨hstacked, -⟩ := (Stacked.nil.emptyGroup.build hbuild).collapse hcollapse
  generalize hall : 0 + operatorsOf false tokens = all at hstacked
  cases hstacked with
  | nil => cases h
  | cons hopen hfits hrest hops =>
    cases hrest with
    | nil =>
      cases h
      exact ⟨by simpa [← hall] using hops, hfits⟩
    | cons => cases h

end OperatorTree

end CircuitExpr
