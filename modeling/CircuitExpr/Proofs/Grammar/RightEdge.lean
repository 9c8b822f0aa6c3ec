import Mathlib
import CircuitExpr.Proofs.Grammar.Frames

/-!
# The right edge of a row of powers

While a row such as `-x ^ !y ^ z` is read, the tree built so far has a free place at its right
edge. Signs are put there one below the other, and then the operand; a power sign goes below the
signs of the first operand and takes everything under them as its left operand.

## Main statements

* `OperatorTree.Fills` — what is added to the group changes this part of its right edge
* `OperatorTree.IsHole` — a right edge with a free place
* `OperatorTree.IsOperand.build` — an operand takes the free place
* `OperatorTree.ofTokens_row` — the tree of a row
-/

namespace CircuitExpr

/-! ## Signs in front of an operand -/

/-- A sign in front of an operand. -/
inductive Sign where
  | minus
  | not
deriving DecidableEq

namespace Sign

def token : Sign → Token
  | minus => .minus
  | not => .not

def operator : Sign → Operator
  | minus => .neg
  | not => .not

end Sign

namespace OperatorTree

/-! ## Adding at the right edge -/

/--
Below each node that has all its operands once the last of them is there, the addition of `new`
changes the operands at the end from `ts` to `ts'`.
-/
def Fills (new : OperatorTree) (ts ts' : List OperatorTree) : Prop :=
  ∀ (op : Operator) (before : List OperatorTree) (top : Bool),
    op.maxChildren = some (before.length + 1) → (top || op.admits new.operator) = true →
      insert new top (node op (ts ++ before)) = .ok (node op (ts' ++ before))

variable {new : OperatorTree} {ts ts' : List OperatorTree}

theorem isLeaf_of_maxChildren {op : Operator} {n : Nat} (h : op.maxChildren = some (n + 1)) :
    op.isLeaf = false := by
  rw [Operator.isLeaf, h]
  rfl

/-- Where the last operand is missing, it is added. -/
theorem fills_nil (new : OperatorTree) : Fills new [] [new] := by
  intro op before top hmax hadmits
  cases before with
  | nil =>
    rw [List.append_nil, insert, hadmits, isLeaf_of_maxChildren hmax]
    rfl
  | cons last before =>
    rw [List.nil_append, insert, hadmits, isLeaf_of_maxChildren hmax, hmax]
    simp

/-- Where the last operand admits it, it is added below. -/
theorem fills_below {last last' : OperatorTree} (hlast : last.operator.admits new.operator = true)
    (h : insert new false last = .ok last') : Fills new [last] [last'] := by
  intro op before top hmax hadmits
  rw [List.singleton_append, insert, hadmits, isLeaf_of_maxChildren hmax, hmax, hlast, h]
  simp

/-- An operator that binds less than the last operand takes it as its own. -/
theorem fills_rotate {last : OperatorTree} (hlast : last.operator.admits new.operator = false)
    (hleaf : new.operator.isLeaf = false) (hroot : new.operator.isRoot = false) :
    Fills new [last] [new.append last] := by
  intro op before top hmax hadmits
  have hgroup : op.isRoot = true → before = [] := by
    intro h
    cases op with
    | root => exact List.length_eq_zero_iff.mp (Nat.succ_inj.mp (Option.some.inj hmax)).symm
    | _ => exact nomatch h
  have hrotate : rotate op last before new = .ok (node op (new.append last :: before)) := by
    rw [rotate, hleaf, hroot]
    cases hop : op.isRoot with
    | false => rfl
    | true => rw [hgroup hop]; rfl
  rw [List.singleton_append, insert, hadmits, isLeaf_of_maxChildren hmax, hmax, hlast, hrotate]
  simp

/-! ## Places at the right edge -/

/-- Binds more strongly than all operators with two operands, or stands in front of one. -/
def IsTight (new : OperatorTree) : Prop := Operator.exp.admits new.operator = true

theorem IsTight.sign (h : IsTight new) (s : Sign) : s.operator.admits new.operator = true := by
  have hexp : Operator.exp.precedence = 120 := rfl
  have hgroups : Operator.exp.isRightToLeft = false := rfl
  have hs : s.operator.precedence = 110 := by cases s <;> rfl
  rw [IsTight, Operator.admits, hexp, hgroups, Bool.and_false, Bool.false_and, Bool.or_false,
    Bool.or_eq_true, decide_eq_true_eq] at h
  rw [Operator.admits, hs]
  rcases h with h | h
  · simp [show 110 < new.operator.precedence by omega]
  · simp [h]

/-- A right edge with a free place. -/
def IsHole (edge : List OperatorTree → List OperatorTree) : Prop :=
  ∀ (new : OperatorTree) (ts ts' : List OperatorTree),
    IsTight new → Fills new ts ts' → Fills new (edge ts) (edge ts')

variable {edge : List OperatorTree → List OperatorTree}

theorem isHole_id : IsHole id := fun _ _ _ _ h => h

/-- What fills a place does so below a sign. -/
theorem Fills.sign {s : Sign} (h : Fills new ts ts') (hs : s.operator.admits new.operator = true) :
    Fills new [node s.operator ts] [node s.operator ts'] := by
  refine fills_below hs ?_
  have hfill := h s.operator [] false (by cases s <;> rfl) hs
  rwa [List.append_nil, List.append_nil] at hfill

theorem IsHole.sign (h : IsHole edge) (s : Sign) : IsHole fun ts => edge [node s.operator ts] :=
  fun new _ _ hnew hfill => h new _ _ hnew (hfill.sign (hnew.sign s))

/-- What fills a place does so in the exponent of a power. -/
theorem IsHole.power (h : IsHole edge) (base : OperatorTree) :
    IsHole fun ts => edge [node .exp (ts ++ [base])] :=
  fun new _ _ hnew hfill =>
    h new _ _ hnew (fills_below hnew (hfill .exp [base] false rfl hnew))

/-! ## Operands -/

/-- The group that tokens between parentheses make up. -/
def group (body : List Token) : Except GrammarError OperatorTree := do
  single (← collapse (← buildBefore (some .closeParen) false body [emptyGroup]))

variable {g : List Char → List Char} {body : List Token} {base stack : List OperatorTree}

/-- A group by itself holds nothing but one group when it is closed. -/
theorem Frames.collapse_single (hstack : Frames 1 stack) {t : OperatorTree}
    (h : (OperatorTree.collapse stack).bind single = .ok t) :
    ∃ children, t = node .root children := by
  obtain ⟨closed, hclosed, ht⟩ := bind_eq_ok.mp h
  obtain ⟨children, rest, rfl, hrest⟩ := hstack.collapse hclosed
  cases hrest
  exact ⟨children, (Except.ok.inj ht).symm⟩

theorem Frames.closeGroup_single (hstack : Frames 1 stack) (hbase : base ≠ []) :
    OperatorTree.closeGroup (reframe g base stack) =
      ((OperatorTree.collapse stack).bind single).bind fun t =>
        OperatorTree.add (t.rename g) base := by
  have hlength : 2 ≤ (reframe g base stack).length := by
    have hone := hstack.length
    have hpos := List.length_pos_iff.mpr hbase
    rw [reframe, List.length_append, List.length_map]
    omega
  rw [closeGroup_eq hlength, hstack.collapse_reframe]
  cases hclosed : OperatorTree.collapse stack with
  | error e => rfl
  | ok closed =>
    obtain ⟨children, rest, rfl, hrest⟩ := hstack.collapse hclosed
    cases hrest
    rfl

/-- **A group is built by itself and added to the groups around it.** -/
theorem buildBefore_group (hbody : closes 0 body = true)
    (hg : ∀ chars ∈ applied (some .closeParen) body, g chars = chars) (hbase : base ≠ [])
    (after : Option Token) (afterValue : Bool) :
    buildBefore after afterValue (.openParen :: (body.map (Token.rename g) ++ [.closeParen])) base =
      (group body).bind fun t => add (t.rename g) base := by
  have hframes : Frames 1 [emptyGroup] := .group [] .nil
  have hopen : ∀ next, place afterValue .openParen next base = .ok (reframe g base [emptyGroup]) :=
    fun next => by simp [place, reframe]
  obtain ⟨hbuild, hclosed⟩ := buildBefore_reframe (g := g) hframes hbody hg base false
  rw [buildBefore, hopen]
  show buildBefore after false (body.map (Token.rename g) ++ [.closeParen])
    (reframe g base [emptyGroup]) = _
  rw [buildBefore_append, group]
  refine (congrArg (Except.bind · _) hbuild).trans ?_
  cases hbody : buildBefore (some .closeParen) false body [emptyGroup] with
  | error e => rfl
  | ok stack =>
    have hclose := (hclosed stack hbody).closeGroup_single (g := g) hbase
    have hlast : ∀ x : Except GrammarError (List OperatorTree),
        x.bind (buildBefore after true []) = x := by rintro (_ | _) <;> rfl
    exact (hlast _).trans hclose

theorem group_operator {t : OperatorTree} (hbody : closes 0 body = true)
    (h : group body = .ok t) : t.operator = .root := by
  obtain ⟨stack, hstack, hclose⟩ := bind_eq_ok.mp h
  have hframes : Frames 1 [emptyGroup] := .group [] .nil
  have hclosed :=
    (buildBefore_reframe (g := id) hframes hbody (fun _ _ => rfl) [] false).2 stack hstack
  obtain ⟨children, rfl⟩ := hclosed.collapse_single hclose
  rfl

/-- Tokens of a value, of a group, or of a function applied to a group. -/
inductive OperandTokens : List Token → Prop
  | number (x : Float) : OperandTokens [.number x]
  | boolean (b : Bool) : OperandTokens [.boolean b]
  | name (chars : List Char) : OperandTokens [.name chars]
  | group {body : List Token} : closes 0 body = true →
    OperandTokens (.openParen :: (body ++ [.closeParen]))
  | call (chars : List Char) {body : List Token} : closes 0 body = true →
    OperandTokens (.name chars :: .openParen :: (body ++ [.closeParen]))

/-- The tree of a value, of a group, or of a function applied to a group. -/
inductive IsOperand : List Token → OperatorTree → Prop
  | number (x : Float) : IsOperand [.number x] (node (.number x) [])
  | boolean (b : Bool) : IsOperand [.boolean b] (node (.boolean b) [])
  | name (chars : List Char) : IsOperand [.name chars] (node (.readName chars) [])
  | group {body : List Token} {t : OperatorTree} : closes 0 body = true → group body = .ok t →
    IsOperand (.openParen :: (body ++ [.closeParen])) t
  | call (chars : List Char) {body : List Token} {t : OperatorTree} :
    closes 0 body = true → OperatorTree.group body = .ok t →
    IsOperand (.name chars :: .openParen :: (body ++ [.closeParen])) (node (.function chars) [t])

variable {after : Option Token} {tokens : List Token} {tree : OperatorTree}

theorem IsTight.not_sequence (h : IsTight new) : new.operator.isSequence = false := by
  unfold IsTight at h
  cases hop : new.operator with
  | tuple | chain => rw [hop] at h; exact nomatch h
  | _ => rfl

/-- What is added to the group takes the free place at its right edge. -/
theorem IsHole.add (hedge : IsHole edge) (hnew : IsTight new) (h : Fills new ts ts') :
    OperatorTree.add new (node .root (edge ts) :: base) = .ok (node .root (edge ts') :: base) := by
  have hinsert := hedge new ts ts' hnew h .root [] true rfl rfl
  rw [List.append_nil, List.append_nil] at hinsert
  rw [add_group hnew.not_sequence, hinsert]
  rfl

theorem applied_close (after : Option Token) (tokens : List Token) :
    applied after (tokens ++ [.closeParen]) = applied (some .closeParen) tokens := by
  induction tokens with
  | nil => rfl
  | cons token rest ih =>
    cases token with
    | name chars =>
      rw [List.cons_append, applied, applied, ih, List.head?_append, Option.or_assoc]
      rfl
    | _ => exact ih

/-- **An operand takes the free place.** -/
theorem IsOperand.build (h : IsOperand tokens tree) (hedge : IsHole edge)
    (hg : ∀ chars ∈ applied none tokens, g chars = chars)
    (hafter : ∀ chars, ofName chars after = .readName chars) :
    buildBefore after false (tokens.map (Token.rename g)) (node .root (edge []) :: base) =
      .ok (node .root (edge [tree.rename g]) :: base) := by
  have hplace : ∀ op : Operator, IsTight (node op []) →
      OperatorTree.add (node op []) (node .root (edge []) :: base) =
        .ok (node .root (edge [node op []]) :: base) :=
    fun op hop => hedge.add hop (fills_nil _)
  have hinner : ∀ {t : OperatorTree}, t.operator = .root → IsTight (t.rename g) := by
    intro t ht
    rw [IsTight, operator_rename, ht]
    rfl
  cases h with
  | number x => exact congrArg (Except.bind · _) (hplace (.number x) rfl)
  | boolean b => exact congrArg (Except.bind · _) (hplace (.boolean b) rfl)
  | name chars =>
    have hread : place false (.name (g chars)) after (node .root (edge []) :: base) =
        .ok (node .root (edge [node (.readName (g chars)) []]) :: base) := by
      rw [← hplace (.readName (g chars)) rfl, ← hafter (g chars)]
      rfl
    exact congrArg (Except.bind · _) hread
  | @group body t hbody ht =>
    rw [applied, applied_close] at hg
    · rw [List.map_cons, List.map_append]
      refine (buildBefore_group hbody hg (List.cons_ne_nil _ _) after false).trans ?_
      rw [ht]
      exact hedge.add (hinner (group_operator hbody ht)) (fills_nil _)
    · simp
  | @call chars body t hbody ht =>
    obtain ⟨hchars, hg⟩ := applied_cons.mp hg
    rw [applied, applied_close] at hg
    · have hfunction : place false (.name chars) (some .openParen) (node .root (edge []) :: base) =
          .ok (node .root (edge [node (.function chars) []]) :: base) :=
        hplace (.function chars) rfl
      rw [List.map_cons, Token.rename, hchars chars rfl rfl, buildBefore]
      refine (congrArg (Except.bind · _) hfunction).trans ?_
      rw [List.map_cons, List.map_append]
      refine (buildBefore_group hbody hg (List.cons_ne_nil _ _) after true).trans ?_
      have hroot : (t.rename g).operator = .root := by
        rw [operator_rename, group_operator hbody ht, Operator.rename_root]
      have hadmits : (Operator.function chars).admits (t.rename g).operator = true := by
        rw [hroot]
        rfl
      have hargument : insert (t.rename g) false (node (.function chars) []) =
          .ok (node (.function chars) [t.rename g]) := by
        rw [insert, hadmits]
        rfl
      rw [ht, rename_node]
      exact hedge.add (hinner (group_operator hbody ht)) (fills_below hadmits hargument)
    · simp

theorem IsOperand.head (h : IsOperand tokens tree) :
    ∃ token rest, tokens = token :: rest ∧ token.beginsValue = true := by
  cases h <;> exact ⟨_, _, rfl, rfl⟩

/-- Behind an operand a minus sign would subtract. -/
theorem IsOperand.endsAfter (h : IsOperand tokens tree) (afterValue : Bool) :
    OperatorTree.endsAfter afterValue tokens = true := by
  have hclose : ∀ (body : List Token) (b : Bool),
      OperatorTree.endsAfter b (body ++ [.closeParen]) = true := by
    intro body
    induction body with
    | nil => exact fun _ => rfl
    | cons token rest ih => exact fun _ => ih token.endsValue
  cases h with
  | number | boolean | name => rfl
  | group => exact hclose _ false
  | call => exact hclose _ false

theorem endsAfter_append (afterValue : Bool) (tokens more : List Token) :
    endsAfter afterValue (tokens ++ more) = endsAfter (endsAfter afterValue tokens) more := by
  induction tokens generalizing afterValue with
  | nil => rfl
  | cons token rest ih => exact ih token.endsValue

theorem endsAfter_rename (afterValue : Bool) (tokens : List Token) :
    endsAfter afterValue (tokens.map (Token.rename g)) = endsAfter afterValue tokens := by
  induction tokens generalizing afterValue with
  | nil => rfl
  | cons token rest ih =>
    rw [List.map_cons, OperatorTree.endsAfter, Token.endsValue_rename]
    exact ih token.endsValue

/-! ## Signs and powers -/

/-- Signs, the first one on top, with operands under the last one. -/
def under (signs : List Sign) (ts : List OperatorTree) : List OperatorTree :=
  signs.foldr (fun s ts => [node s.operator ts]) ts

theorem IsHole.under (h : IsHole edge) (signs : List Sign) :
    IsHole fun ts => edge (under signs ts) := by
  induction signs generalizing edge with
  | nil => exact h
  | cons s rest ih => exact ih (h.sign s)

/-- **Signs are put one below the other.** -/
theorem buildBefore_signs (hedge : IsHole edge) (signs : List Sign) :
    buildBefore after false (signs.map Sign.token) (node .root (edge []) :: base) =
      .ok (node .root (edge (under signs [])) :: base) := by
  induction signs generalizing edge with
  | nil => rfl
  | cons s rest ih =>
    have hadd : OperatorTree.add (node s.operator []) (node .root (edge []) :: base) =
        .ok (node .root (edge [node s.operator []]) :: base) :=
      hedge.add (by cases s <;> rfl) (fills_nil _)
    have hplace : ∀ next, place false s.token next (node .root (edge []) :: base) =
        .ok (node .root (edge [node s.operator []]) :: base) := by
      cases s <;> exact fun _ => hadd
    have hends : s.token.endsValue = false := by cases s <;> rfl
    rw [List.map_cons, buildBefore, hplace, hends]
    exact ih (hedge.sign s)

/-- A power sign goes below the signs in front of the row, and takes the row as its base. -/
theorem fills_power {t : OperatorTree} (ht : t.operator.admits .exp = false)
    (signs : List Sign) : Fills (node .exp []) (under signs [t]) (under signs [node .exp [t]]) := by
  induction signs with
  | nil => exact fills_rotate ht rfl rfl
  | cons s rest ih => exact ih.sign (by cases s <;> rfl)

/-! ## Rows of powers -/

/-- What the tokens of an operand do wherever an operand is missing. -/
structure Settles (tokens : List Token) (tree : OperatorTree) : Prop where
  build (edge : List OperatorTree → List OperatorTree) (after : Option Token)
    (base : List OperatorTree) : IsHole edge → (∀ chars, ofName chars after = .readName chars) →
      buildBefore after false tokens (node .root (edge []) :: base) =
        .ok (node .root (edge [tree]) :: base)
  ends : endsAfter false tokens = true
  /-- A power takes the operand as its base. -/
  whole : tree.operator.admits .exp = false

theorem IsOperand.settles (h : IsOperand tokens tree)
    (hg : ∀ chars ∈ applied none tokens, g chars = chars) :
    Settles (tokens.map (Token.rename g)) (tree.rename g) where
  build _ _ _ hedge hafter := h.build hedge hg hafter
  ends := by rw [endsAfter_rename, h.endsAfter]
  whole := by
    rw [operator_rename]
    cases h with
    | number | boolean | name | call => rfl
    | group hbody ht => rw [group_operator hbody ht]; rfl

/-- An operand with signs in front of it. -/
structure Term where
  signs : List Sign
  tokens : List Token
  tree : OperatorTree
  settles : Settles tokens tree

/-- The tokens of an operand and its signs. -/
def Term.row (term : Term) : List Token := term.signs.map Sign.token ++ term.tokens

/-- Operands behind the first one, each with its power sign. -/
def exponentTokens : List Term → List Token
  | [] => []
  | term :: rest => .power :: (term.row ++ exponentTokens rest)

/-- The tree of a row of operands, the powers grouped to the left. -/
def powerTree (base : OperatorTree) : List Term → OperatorTree
  | [] => base
  | term :: rest => powerTree (node .exp (under term.signs [term.tree] ++ [base])) rest

theorem endsAfter_signs (signs : List Sign) : endsAfter false (signs.map Sign.token) = false := by
  induction signs with
  | nil => rfl
  | cons s rest ih => cases s <;> exact ih

theorem Term.endsAfter (term : Term) : OperatorTree.endsAfter false term.row = true := by
  rw [Term.row, endsAfter_append, endsAfter_signs, term.settles.ends]

/-- **An operand with signs takes the free place.** -/
theorem Term.build (term : Term) (hedge : IsHole edge)
    (hafter : ∀ chars, ofName chars after = .readName chars) :
    buildBefore after false term.row (node .root (edge []) :: base) =
      .ok (node .root (edge (under term.signs [term.tree])) :: base) := by
  rw [Term.row, buildBefore_append, buildBefore_signs hedge, endsAfter_signs]
  exact term.settles.build _ after base (hedge.under term.signs) hafter

/-- A name in front of a power sign, or at the end, is a variable. -/
theorem ofName_exponentTokens (terms : List Term) (chars : List Char) :
    ofName chars ((exponentTokens terms).head?.or none) = .readName chars := by
  cases terms <;> rfl

/-- **The powers of a row are grouped to the left**, below the signs of the first operand. -/
theorem buildBefore_exponents (signs : List Sign) {first : OperatorTree}
    (hfirst : first.operator.admits .exp = false) (terms : List Term) :
    buildBefore none true (exponentTokens terms) (node .root (under signs [first]) :: base) =
      .ok (node .root (under signs [powerTree first terms]) :: base) := by
  -- `signs` stays on top throughout: a power does not bind less than itself, so each further power
  -- sign stops below the signs and takes the row read so far as its base.
  induction terms generalizing first with
  | nil => rfl
  | cons term rest ih =>
    have hpower : ∀ next, place true .power next (node .root (under signs [first]) :: base) =
        .ok (node .root (under signs [node .exp [first]]) :: base) := by
      intro next
      have hinsert := fills_power hfirst signs .root [] true rfl rfl
      rw [List.append_nil, List.append_nil] at hinsert
      exact (add_group rfl _ base).trans (congrArg (Except.map (· :: base)) hinsert)
    have hedge : IsHole fun ts => under signs [node .exp (ts ++ [first])] :=
      (isHole_id.under signs).power first
    rw [exponentTokens, buildBefore, hpower]
    show buildBefore none false (term.row ++ exponentTokens rest)
      (node .root (under signs [node .exp [first]]) :: base) = _
    rw [buildBefore_append, term.endsAfter]
    refine (congrArg (Except.bind · _) (term.build hedge (ofName_exponentTokens rest))).trans ?_
    exact ih rfl

/-- **The tree of a row.** -/
theorem ofTokens_row (first : Term) (terms : List Term) :
    ofTokens (first.row ++ exponentTokens terms) =
      .ok (node .root (under first.signs [powerTree first.tree terms])) := by
  have hone : (under first.signs [powerTree first.tree terms]).length = 1 := by
    cases first.signs <;> rfl
  have hbuild : build false (first.row ++ exponentTokens terms) [emptyGroup] =
      .ok [node .root (under first.signs [powerTree first.tree terms])] := by
    rw [build_eq, buildBefore_append, first.endsAfter]
    refine (congrArg (Except.bind · _)
      (first.build isHole_id (ofName_exponentTokens terms))).trans ?_
    exact buildBefore_exponents first.signs first.settles.whole terms
  rw [ofTokens, hbuild]
  show (collapse [node .root (under first.signs [powerTree first.tree terms])]).bind single = _
  rw [collapse_group, hone]
  rfl

/-! ## Operands alone -/

theorem IsOperand.ofTokens_eq (h : IsOperand tokens tree) :
    ofTokens tokens = .ok (node .root [tree]) := by
  have hsettles : Settles (tokens.map (Token.rename id)) (tree.rename id) :=
    h.settles fun _ _ => rfl
  rw [rename_id, funext Token.rename_id, List.map_id'] at hsettles
  have hrow := ofTokens_row ⟨[], tokens, tree, hsettles⟩ []
  rwa [exponentTokens, List.append_nil] at hrow

/-- What can be built with parentheses around can be built between them. -/
theorem exists_group (hbody : closes 0 body = true) (hbase : base ≠ []) {afterValue : Bool}
    (h : buildBefore none afterValue (.openParen :: (body ++ [.closeParen])) base = .ok stack) :
    ∃ t, group body = .ok t := by
  have hgroup := buildBefore_group (g := id) hbody (fun _ _ => rfl) hbase none afterValue
  rw [funext Token.rename_id, List.map_id', h] at hgroup
  obtain ⟨t, ht, -⟩ := bind_eq_ok.mp hgroup.symm
  exact ⟨t, ht⟩

/-- **Tokens of an operand that have a tree at all** have the tree of an operand. -/
theorem OperandTokens.exists_isOperand (h : OperandTokens tokens)
    (hok : ofTokens tokens = .ok tree) : ∃ t, IsOperand tokens t := by
  obtain ⟨stack, hbuild, -⟩ := bind_eq_ok.mp hok
  rw [build_eq] at hbuild
  cases h with
  | number x => exact ⟨_, .number x⟩
  | boolean b => exact ⟨_, .boolean b⟩
  | name chars => exact ⟨_, .name chars⟩
  | group hbody =>
    obtain ⟨t, ht⟩ := exists_group hbody (List.cons_ne_nil _ _) hbuild
    exact ⟨t, .group hbody ht⟩
  | call chars hbody =>
    obtain ⟨called, hcalled, hbuild⟩ := bind_eq_ok.mp hbuild
    have hplace : place false (.name chars) (some .openParen) [emptyGroup] =
        .ok [node .root [node (.function chars) []]] := rfl
    cases hplace.symm.trans hcalled
    obtain ⟨t, ht⟩ := exists_group hbody (List.cons_ne_nil _ _) hbuild
    exact ⟨_, .call chars hbody ht⟩

end OperatorTree

end CircuitExpr
