import Mathlib
import CircuitExpr.Grammar.OperatorTree
import CircuitExpr.Proofs.Evaluation.Outcome
import CircuitExpr.Proofs.Grammar.Tokens

/-!
# Groups inside other groups

What is built in parentheses does not depend on what stands around them, nor on the names in it.
A part of the stack of groups is looked at together with the stack below it: as long as no
parenthesis is closed that was opened below, and no semicolon ends groups there, the stack below
stays as it is.

## Main statements

* `OperatorTree.insert_rename` — building does not look at names
* `OperatorTree.buildBefore_append` — a row of tokens, and then the next one
* `OperatorTree.buildBefore_reframe` — tokens whose parentheses are closed, in other surroundings
-/

namespace CircuitExpr

/-! ## Renaming -/

namespace Operator

/-- The operator with the name of a variable changed. -/
def rename (g : List Char → List Char) : Operator → Operator
  | readName chars => readName (g chars)
  | writeName chars => writeName (g chars)
  | op => op

section Rename

variable (g : List Char → List Char) (op : Operator)

@[simp] theorem precedence_rename : (op.rename g).precedence = op.precedence := by
  cases op <;> rfl

@[simp] theorem maxChildren_rename : (op.rename g).maxChildren = op.maxChildren := by
  cases op <;> rfl

@[simp] theorem rename_root : root.rename g = root := rfl

@[simp] theorem rename_tuple : tuple.rename g = tuple := rfl

@[simp] theorem isRoot_rename : (op.rename g).isRoot = op.isRoot := by
  cases op <;> rfl

@[simp] theorem isSequence_rename : (op.rename g).isSequence = op.isSequence := by
  cases op <;> rfl

@[simp] theorem isRightToLeft_rename : (op.rename g).isRightToLeft = op.isRightToLeft := by
  cases op <;> rfl

@[simp] theorem isLeaf_rename : (op.rename g).isLeaf = op.isLeaf := by
  rw [isLeaf, isLeaf, maxChildren_rename]

@[simp] theorem isUnary_rename : (op.rename g).isUnary = op.isUnary := by
  rw [isUnary, isUnary, maxChildren_rename, isRoot_rename]

@[simp] theorem admits_rename (inner : Operator) :
    (op.rename g).admits (inner.rename g) = op.admits inner := by
  simp [admits]

end Rename

@[simp] theorem rename_id (op : Operator) : op.rename id = op := by
  cases op <;> rfl

end Operator

namespace OperatorTree

mutual

/-- The tree with the names of variables changed. -/
def rename (g : List Char → List Char) : OperatorTree → OperatorTree
  | node op children => node (op.rename g) (renameEach g children)

/-- Several trees with the names of variables changed. -/
def renameEach (g : List Char → List Char) : List OperatorTree → List OperatorTree
  | [] => []
  | t :: rest => t.rename g :: renameEach g rest

end

mutual

@[simp] theorem rename_id : ∀ t : OperatorTree, t.rename id = t
  | node op children => by rw [rename, Operator.rename_id, renameEach_id children]

theorem renameEach_id : ∀ ts : List OperatorTree, renameEach id ts = ts
  | [] => rfl
  | t :: rest => by rw [renameEach, rename_id t, renameEach_id rest]

end

section Rename

variable (g : List Char → List Char)

theorem renameEach_eq_map (ts : List OperatorTree) : renameEach g ts = ts.map (rename g) := by
  induction ts with
  | nil => rfl
  | cons t rest ih => rw [renameEach, List.map_cons, ih]

@[simp] theorem rename_node (op : Operator) (children : List OperatorTree) :
    (node op children).rename g = node (op.rename g) (children.map (rename g)) := by
  rw [rename, renameEach_eq_map]

@[simp] theorem operator_rename (t : OperatorTree) :
    (t.rename g).operator = t.operator.rename g := by
  cases t
  rw [rename_node]
  rfl

@[simp] theorem children_rename (t : OperatorTree) :
    (t.rename g).children = t.children.map (rename g) := by
  cases t
  rw [rename_node]
  rfl

@[simp] theorem append_rename (t child : OperatorTree) :
    (t.rename g).append (child.rename g) = (t.append child).rename g := by
  cases t
  rw [rename_node, append, append, rename_node, List.map_cons]

theorem rotate_rename (op : Operator) (last : OperatorTree) (before : List OperatorTree)
    (new : OperatorTree) :
    rotate (op.rename g) (last.rename g) (before.map (rename g)) (new.rename g) =
      (rotate op last before new).map (rename g) := by
  unfold rotate
  simp only [operator_rename, children_rename, Operator.isLeaf_rename, Operator.isRoot_rename,
    List.isEmpty_map, append_rename]
  split
  · rfl
  · split
    · rfl
    · split
      · rfl
      · simp [Except.map]

/-- **Building does not look at names.** -/
theorem insert_rename (new : OperatorTree) (top : Bool) (t : OperatorTree) :
    insert (new.rename g) top (t.rename g) = (insert new top t).map (rename g) := by
  fun_induction insert new top t with
  | case1 top op hadmits | case2 top op hadmits hleaf | case3 top op hadmits hleaf
  | case4 top op last before hadmits | case5 top op last before hadmits hleaf
  | case9 top op last before hadmits hleaf hfull =>
    simp [insert, Except.map, *]
  | case6 top op last before hadmits hleaf hfull hlast e he ih
  | case7 top op last before hadmits hleaf hfull hlast last' hlast' ih =>
    rw [‹insert new false last = _›] at ih
    simp [insert, Except.map, *]
  | case8 top op last before hadmits hleaf hfull hlast =>
    simp [insert, Except.map, rotate_rename, *]

end Rename

/-! ## Rows of tokens -/

/-- Adds tokens to the groups on the stack, with this token or none behind them. -/
def buildBefore (after : Option Token) :
    Bool → List Token → List OperatorTree → Except GrammarError (List OperatorTree)
  | _, [], stack => .ok stack
  | afterValue, token :: rest, stack =>
    (place afterValue token (rest.head?.or after) stack).bind
      (buildBefore after token.endsValue rest)

/-- Whether a value may end with the last of the tokens. -/
def endsAfter : Bool → List Token → Bool
  | afterValue, [] => afterValue
  | _, token :: rest => endsAfter token.endsValue rest

theorem build_eq (afterValue : Bool) (tokens : List Token) (stack : List OperatorTree) :
    build afterValue tokens stack = buildBefore none afterValue tokens stack := by
  induction tokens generalizing afterValue stack with
  | nil => rfl
  | cons token rest ih =>
    rw [build, buildBefore, Option.or_none]
    cases place afterValue token rest.head? stack with
    | error e => rfl
    | ok stack => exact ih token.endsValue stack

/-- **A row of tokens, and then the next one.** -/
theorem buildBefore_append (after : Option Token) (afterValue : Bool) (tokens more : List Token)
    (stack : List OperatorTree) :
    buildBefore after afterValue (tokens ++ more) stack =
      (buildBefore (more.head?.or after) afterValue tokens stack).bind
        (buildBefore after (endsAfter afterValue tokens) more) := by
  induction tokens generalizing afterValue stack with
  | nil => rfl
  | cons token rest ih =>
    rw [List.cons_append, buildBefore, buildBefore, List.head?_append, Option.or_assoc]
    cases place afterValue token (rest.head?.or (more.head?.or after)) stack with
    | error e => rfl
    | ok stack => exact ih token.endsValue stack

/-! ## Frames -/

/-- Groups that are not complete yet, so many of them, in each of which a sequence may be open. -/
inductive Frames : Nat → List OperatorTree → Prop
  | nil : Frames 0 []
  | group {n : Nat} {stack : List OperatorTree} (children : List OperatorTree) :
    Frames n stack → Frames (n + 1) (node .root children :: stack)
  | sequence {n : Nat} {stack : List OperatorTree} (children before : List OperatorTree) :
    Frames n stack → Frames (n + 1) (node .tuple children :: node .root before :: stack)

/-- The groups in other surroundings: with names changed, and above another stack. -/
def reframe (g : List Char → List Char) (base stack : List OperatorTree) : List OperatorTree :=
  stack.map (rename g) ++ base

variable {g : List Char → List Char} {base stack stack' : List OperatorTree} {n : Nat}

theorem rotate_node {new last t' : OperatorTree} {op : Operator} {before : List OperatorTree}
    (h : rotate op last before new = .ok t') : ∃ children, t' = node op children := by
  unfold rotate at h
  split at h
  · exact nomatch h
  · split at h
    · exact nomatch h
    · split at h
      · exact nomatch h
      · exact ⟨_, (Except.ok.inj h).symm⟩

/-- Adding below a node leaves what stands there. -/
theorem insert_node {new t t' : OperatorTree} {top : Bool} (h : insert new top t = .ok t') :
    ∃ children, t' = node t.operator children := by
  revert h
  fun_cases insert new top t with
  | case1 | case2 | case4 | case5 | case6 => exact nofun
  | case3 | case7 | case9 => exact fun h => ⟨_, (Except.ok.inj h).symm⟩
  | case8 => exact rotate_node

@[simp] theorem operator_node (op : Operator) (children : List OperatorTree) :
    (node op children).operator = op := rfl

@[simp] theorem isSequence_root : Operator.root.isSequence = false := rfl

@[simp] theorem isSequence_tuple : Operator.tuple.isSequence = true := rfl

theorem add_group {new : OperatorTree} (hnew : new.operator.isSequence = false)
    (children stack : List OperatorTree) :
    add new (node .root children :: stack) =
      (insert new true (node .root children)).map (· :: stack) := by
  simp [add, hnew]

theorem add_sequence {new : OperatorTree} (hnew : new.operator.isSequence = false)
    (last : OperatorTree) (before stack : List OperatorTree) :
    add new (node .tuple (last :: before) :: stack) =
      (insert new true last).map fun last => node .tuple (last :: before) :: stack := by
  simp [add, hnew]

theorem add_sequence_nil {new : OperatorTree} (hnew : new.operator.isSequence = false)
    (stack : List OperatorTree) :
    add new (node .tuple [] :: stack) = .error .unmatchedClosing := by
  simp [add, hnew]

/-- A comma in a group begins a sequence. -/
theorem add_comma_group {new : OperatorTree} (hnew : new.operator = .tuple)
    (children stack : List OperatorTree) :
    add new (node .root children :: stack) =
      .ok (node .tuple [emptyGroup, node .root children] :: emptyGroup :: stack) := by
  simp [add, hnew, addSequence, Operator.sameSequence, Operator.isRoot]

/-- A comma in a sequence goes on with it. -/
theorem add_comma_sequence {new : OperatorTree} (hnew : new.operator = .tuple)
    (children stack : List OperatorTree) :
    add new (node .tuple children :: stack) =
      .ok (node .tuple (emptyGroup :: children) :: stack) := by
  simp [add, hnew, addSequence, append, Operator.sameSequence]

theorem isSequence_cases {op : Operator} (h : op ≠ .chain) :
    op = .tuple ∨ op.isSequence = false := by
  cases op <;> simp_all [Operator.isSequence]

theorem Frames.add {new : OperatorTree} (hstack : Frames (n + 1) stack)
    (hnew : new.operator ≠ .chain) (h : add new stack = .ok stack') : Frames (n + 1) stack' := by
  rcases isSequence_cases hnew with hcomma | hnew
  · cases hstack with
    | group children hrest =>
      rw [add_comma_group hcomma] at h
      cases h
      exact .sequence _ _ hrest
    | sequence children before hrest =>
      rw [add_comma_sequence hcomma] at h
      cases h
      exact .sequence _ _ hrest
  · cases hstack with
    | group children hrest =>
      rw [add_group hnew] at h
      obtain ⟨t, ht, rfl⟩ := map_eq_ok h
      obtain ⟨children', rfl⟩ := insert_node ht
      exact .group _ hrest
    | sequence children before hrest =>
      cases children with
      | nil =>
        rw [add_sequence_nil hnew] at h
        exact nomatch h
      | cons last more =>
        rw [add_sequence hnew] at h
        obtain ⟨last', -, rfl⟩ := map_eq_ok h
        exact .sequence _ _ hrest

@[simp] theorem reframe_cons (t : OperatorTree) (stack : List OperatorTree) :
    reframe g base (t :: stack) = t.rename g :: reframe g base stack := rfl

@[simp] theorem emptyGroup_rename : emptyGroup.rename g = emptyGroup := rename_node g .root []

theorem Frames.add_reframe {new : OperatorTree} (hstack : Frames (n + 1) stack)
    (hnew : new.operator ≠ .chain) :
    OperatorTree.add (new.rename g) (reframe g base stack) =
      (OperatorTree.add new stack).map (reframe g base) := by
  rcases isSequence_cases hnew with hcomma | hnew
  · have hcomma' : (new.rename g).operator = .tuple := by
      rw [operator_rename, hcomma, Operator.rename_tuple]
    cases hstack with
    | group children hrest =>
      rw [add_comma_group hcomma]
      simp [add_comma_group hcomma', Except.map]
    | sequence children before hrest =>
      rw [add_comma_sequence hcomma]
      simp [add_comma_sequence hcomma', Except.map]
  · have hnew' : (new.rename g).operator.isSequence = false := by
      rw [operator_rename, Operator.isSequence_rename, hnew]
    cases hstack with
    | group children hrest =>
      have hinsert := insert_rename g new true (node .root children)
      rw [rename_node, Operator.rename_root] at hinsert
      rw [add_group hnew, reframe_cons, rename_node, Operator.rename_root, add_group hnew',
        hinsert]
      cases insert new true (node .root children) <;> rfl
    | sequence children before hrest =>
      rw [reframe_cons, rename_node, Operator.rename_tuple]
      cases children with
      | nil => rw [add_sequence_nil hnew, List.map_nil, add_sequence_nil hnew']; rfl
      | cons last more =>
        rw [add_sequence hnew, List.map_cons, add_sequence hnew', insert_rename]
        cases insert new true last with
        | error e => rfl
        | ok t => simp [Except.map]

/-! ## Closing groups -/

/-- A group that is complete is left on the stack. -/
theorem collapse_group (children stack : List OperatorTree) :
    collapse (node .root children :: stack) =
      if 1 < children.length then .error .missingOperator
      else .ok (node .root children :: stack) := by
  cases stack <;> rfl

/-- A sequence ends and becomes what its group holds. -/
theorem collapse_sequence (children before stack : List OperatorTree) :
    collapse (node .tuple children :: node .root before :: stack) =
      collapse (node .root (node .tuple children :: before) :: stack) := rfl

theorem Frames.collapse (hstack : Frames (n + 1) stack) (h : collapse stack = .ok stack') :
    ∃ children rest, stack' = node .root children :: rest ∧ Frames n rest := by
  cases hstack with
  | group children hrest =>
    rw [collapse_group] at h
    split at h
    · exact nomatch h
    · exact ⟨_, _, (Except.ok.inj h).symm, hrest⟩
  | sequence children before hrest =>
    rw [collapse_sequence, collapse_group] at h
    split at h
    · exact nomatch h
    · exact ⟨_, _, (Except.ok.inj h).symm, hrest⟩

theorem Frames.collapse_reframe (hstack : Frames (n + 1) stack) :
    OperatorTree.collapse (reframe g base stack) =
      (OperatorTree.collapse stack).map (reframe g base) := by
  cases hstack with
  | group children hrest =>
    rw [collapse_group, reframe_cons, rename_node, Operator.rename_root, collapse_group,
      List.length_map]
    split
    · rfl
    · simp [Except.map]
  | sequence children before hrest =>
    rw [collapse_sequence, collapse_group, reframe_cons, reframe_cons, rename_node, rename_node,
      Operator.rename_root, Operator.rename_tuple, collapse_sequence, collapse_group,
      List.length_cons, List.length_cons, List.length_map]
    split
    · rfl
    · simp [Except.map]

theorem Frames.length (hstack : Frames n stack) : n ≤ stack.length := by
  induction hstack with
  | nil => exact Nat.le_refl 0
  | group _ _ ih | sequence _ _ _ ih => simp only [List.length_cons]; omega

/-- Closing a group needs one below it. -/
theorem closeGroup_eq (hlength : 2 ≤ stack.length) :
    closeGroup stack = (collapse stack).bind fun
      | [] => .error .unmatchedClosing
      | group :: rest => add group rest := by
  rw [closeGroup, if_neg (by omega)]
  cases collapse stack with
  | error e => rfl
  | ok stack => cases stack <;> rfl

theorem Frames.closeGroup (hstack : Frames (n + 2) stack) (h : closeGroup stack = .ok stack') :
    Frames (n + 1) stack' := by
  have hlength : 2 ≤ stack.length := Nat.le_trans (Nat.le_add_left 2 n) hstack.length
  rw [closeGroup_eq hlength] at h
  obtain ⟨closed, hclosed, hadd⟩ := bind_eq_ok.mp h
  obtain ⟨children, rest, rfl, hrest⟩ := hstack.collapse hclosed
  exact hrest.add (by simp) hadd

theorem Frames.closeGroup_reframe (hstack : Frames (n + 2) stack) :
    OperatorTree.closeGroup (reframe g base stack) =
      (OperatorTree.closeGroup stack).map (reframe g base) := by
  have hlength : 2 ≤ stack.length := Nat.le_trans (Nat.le_add_left 2 n) hstack.length
  have hlength' : 2 ≤ (reframe g base stack).length := by
    rw [reframe, List.length_append, List.length_map]
    omega
  rw [closeGroup_eq hlength, closeGroup_eq hlength', hstack.collapse_reframe]
  cases hclosed : OperatorTree.collapse stack with
  | error e => rfl
  | ok closed =>
    obtain ⟨children, rest, rfl, hrest⟩ := hstack.collapse hclosed
    exact hrest.add_reframe (by simp)

/-! ## Tokens between parentheses -/

/-- Whether the parentheses are closed, so many being open in front, and nothing ends groups. -/
def closes : Nat → List Token → Bool
  | depth, [] => depth == 0
  | depth, .openParen :: rest => closes (depth + 1) rest
  | 0, .closeParen :: _ => false
  | depth + 1, .closeParen :: rest => closes depth rest
  | _, .semicolon :: _ => false
  | depth, _ :: rest => closes depth rest

/-- The names with a value behind them, which are those of functions. -/
def applied (after : Option Token) : List Token → List (List Char)
  | [] => []
  | .name chars :: rest =>
    if (rest.head?.or after).any Token.beginsValue then chars :: applied after rest
    else applied after rest
  | _ :: rest => applied after rest

theorem applied_cons {after : Option Token} {token : Token} {rest : List Token}
    {p : List Char → Prop} :
    (∀ chars ∈ applied after (token :: rest), p chars) ↔
      (∀ chars, token = .name chars → (rest.head?.or after).any Token.beginsValue = true →
        p chars) ∧ ∀ chars ∈ applied after rest, p chars := by
  cases token with
  | name chars =>
    rw [applied]
    split
    · next hvalue => simp [hvalue]
    · next hvalue => simp [hvalue]
  | _ => simp [applied]

/-- What the first token does to the count of open parentheses. -/
theorem closes_cons {depth : Nat} {token : Token} {rest : List Token}
    (h : closes depth (token :: rest) = true) :
    token = .openParen ∧ closes (depth + 1) rest = true ∨
      (token = .closeParen ∧ ∃ outer, depth = outer + 1 ∧ closes outer rest = true) ∨
      (token ≠ .openParen ∧ token ≠ .closeParen ∧ token ≠ .semicolon) ∧
        closes depth rest = true := by
  cases token with
  | openParen => exact .inl ⟨rfl, h⟩
  | closeParen =>
    cases depth with
    | zero => exact nomatch h
    | succ outer => exact .inr (.inl ⟨rfl, outer, rfl, h⟩)
  | semicolon => cases depth <;> exact nomatch h
  | _ => cases depth <;> exact .inr (.inr ⟨by simp, h⟩)

section Place

variable {token : Token} {afterValue : Bool} {next : Option Token}

theorem place_eq_add (hopen : token ≠ .openParen) (hclose : token ≠ .closeParen)
    (stack : List OperatorTree) :
    place afterValue token next stack = add (node (operatorOf afterValue token next) []) stack := by
  cases token with
  | openParen => exact absurd rfl hopen
  | closeParen => exact absurd rfl hclose
  | _ => rfl

theorem operatorOf_ne_chain (h : token ≠ .semicolon) :
    operatorOf afterValue token next ≠ .chain := by
  cases token with
  | semicolon => exact absurd rfl h
  | minus => cases afterValue <;> simp [operatorOf]
  | name chars =>
    unfold operatorOf ofName
    simp only
    split
    · simp
    · split
      · simp
      · split <;> simp
  | _ => simp [operatorOf]

/-- The names of functions stay, the names of variables are changed. -/
theorem operatorOf_rename
    (hg : ∀ chars, token = .name chars → next.any Token.beginsValue = true → g chars = chars) :
    operatorOf afterValue (token.rename g) (next.map (Token.rename g)) =
      (operatorOf afterValue token next).rename g := by
  cases token with
  | minus => cases afterValue <;> rfl
  | name chars =>
    cases next with
    | none => rfl
    | some follower =>
      show ofName (g chars) (some (follower.rename g)) = (ofName chars (some follower)).rename g
      simp only [ofName, Token.isAssignment_rename, Token.beginsValue_rename]
      split
      · rfl
      · split
        · next hbegins => exact congrArg Operator.function (hg chars rfl hbegins)
        · rfl
  | _ => rfl

end Place

/-- **What one token does to the groups is the same in other surroundings.** -/
theorem Frames.place_reframe {depth : Nat} {token : Token} {rest : List Token}
    {next : Option Token} (hstack : Frames (depth + 1) stack)
    (h : closes depth (token :: rest) = true)
    (hg : ∀ chars, token = .name chars → next.any Token.beginsValue = true → g chars = chars)
    (base : List OperatorTree) (afterValue : Bool) :
    place afterValue (token.rename g) (next.map (Token.rename g)) (reframe g base stack) =
        (place afterValue token next stack).map (reframe g base) ∧
      ∀ stack', place afterValue token next stack = .ok stack' →
        ∃ depth', closes depth' rest = true ∧ Frames (depth' + 1) stack' := by
  rcases closes_cons h with
    ⟨rfl, hrest⟩ | ⟨rfl, outer, rfl, hrest⟩ | ⟨⟨hopen, hclose, hends⟩, hrest⟩
  · refine ⟨by simp [place, Token.rename, Except.map], ?_⟩
    rintro _ ⟨⟩
    exact ⟨depth + 1, hrest, .group [] hstack⟩
  · exact ⟨hstack.closeGroup_reframe, fun _ hplace => ⟨outer, hrest, hstack.closeGroup hplace⟩⟩
  · have hchain : (node (operatorOf afterValue token next) []).operator ≠ .chain :=
      operatorOf_ne_chain hends
    have hopen' : token.rename g ≠ .openParen := by
      cases token <;> simp_all [Token.rename]
    have hclose' : token.rename g ≠ .closeParen := by
      cases token <;> simp_all [Token.rename]
    rw [place_eq_add hopen hclose, place_eq_add hopen' hclose', operatorOf_rename hg,
      ← hstack.add_reframe hchain, rename_node, List.map_nil]
    exact ⟨rfl, fun _ hplace => ⟨depth, hrest, hstack.add hchain hplace⟩⟩

/-- **Tokens between parentheses are put together in the same way in other surroundings.** -/
theorem buildBefore_reframe {depth : Nat} {after : Option Token} {tokens : List Token}
    (hstack : Frames (depth + 1) stack) (h : closes depth tokens = true)
    (hg : ∀ chars ∈ applied after tokens, g chars = chars) (base : List OperatorTree)
    (afterValue : Bool) :
    buildBefore (after.map (Token.rename g)) afterValue (tokens.map (Token.rename g))
        (reframe g base stack) = (buildBefore after afterValue tokens stack).map (reframe g base) ∧
      ∀ stack', buildBefore after afterValue tokens stack = .ok stack' → Frames 1 stack' := by
  -- `Frames` carries the induction: one more open parenthesis, one more frame above the base.
  induction tokens generalizing depth afterValue stack with
  | nil =>
    have hdepth : depth = 0 := by simpa [closes] using h
    subst hdepth
    refine ⟨rfl, ?_⟩
    rintro _ ⟨⟩
    exact hstack
  | cons token rest ih =>
    have hnext : (rest.map (Token.rename g)).head?.or (after.map (Token.rename g)) =
        (rest.head?.or after).map (Token.rename g) := by
      cases rest <;> rfl
    obtain ⟨hname, hg⟩ := applied_cons.mp hg
    obtain ⟨hplace, hframes⟩ := hstack.place_reframe h hname base afterValue
    rw [List.map_cons, buildBefore, buildBefore, hnext, hplace, Token.endsValue_rename]
    cases hone : place afterValue token (rest.head?.or after) stack with
    | error e => exact ⟨rfl, nofun⟩
    | ok stack' =>
      obtain ⟨depth', hrest, hstack'⟩ := hframes stack' hone
      exact ih hstack' hrest hg token.endsValue

end OperatorTree

end CircuitExpr
