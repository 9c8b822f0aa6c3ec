import Mathlib
import CircuitExpr.Grammar.Read
import CircuitExpr.Proofs.Grammar.RightEdge

/-!
# Readings of renamed trees and of rows of powers

A tree that is an expression stays the same expression when its placeholders are numbered
otherwise, in a text whose tables hold the same entries under the new numbers. What a row of
powers stands for is put together from its operands: the minus signs right in front of the first
operand go to this operand, a `!` and the signs before it apply to the whole power.

## Main statements

* `Reading.Refines`, `Reading.ofTree_rename` — a renamed tree has the same reading
* `Reading.IsRow.powerTree`, `Reading.plain_signed_row` — the expression of a row of powers
-/

namespace CircuitExpr

/-! ## Results that stay -/

/-- The second computation succeeds in the same way where the first one succeeds. -/
def Keeps {ε α : Type} (x y : Except ε α) : Prop := ∀ a, x = .ok a → y = .ok a

namespace Keeps

variable {ε α β : Type}

theorem refl (x : Except ε α) : Keeps x x := fun _ h => h

theorem error (e : ε) (y : Except ε α) : Keeps (.error e) y := nofun

theorem map {x y : Except ε α} (h : Keeps x y) (f : α → β) : Keeps (x.map f) (y.map f) := by
  intro b hb
  obtain ⟨a, ha, rfl⟩ := map_eq_ok hb
  rw [h a ha]
  rfl

theorem bind {x y : Except ε α} {f f' : α → Except ε β} (h : Keeps x y)
    (hf : ∀ a, Keeps (f a) (f' a)) : Keeps (x.bind f) (y.bind f') := by
  intro b hb
  obtain ⟨a, ha, hb⟩ := bind_eq_ok.mp hb
  rw [h a ha]
  exact hf a b hb

end Keeps

namespace Reading

/-- The second reading is the same wherever the first one is an expression. -/
structure Refines (own whole : Reading) : Prop where
  signed : ∀ n, Keeps (own.signed n) (whole.signed n)
  factors : Keeps own.factors whole.factors
  arguments : Keeps own.arguments whole.arguments

namespace Refines

variable {own whole : Reading} {owns wholes : List Reading}

theorem refl (r : Reading) : Refines r r := ⟨fun _ => .refl _, .refl _, .refl _⟩

theorem ofExpr {x y : Except ReadError (Expr Float)} (h : Keeps x y) :
    Refines (Reading.ofExpr x) (Reading.ofExpr y) :=
  ⟨fun _ => h.map _, h.map _, h.map _⟩

theorem ofError (e : ReadError) (r : Reading) : Refines (Reading.ofError e) r :=
  ⟨fun _ => .error e _, .error e _, .error e _⟩

theorem plain (h : Refines own whole) : Keeps own.plain whole.plain := h.signed 0

theorem plainEach (h : List.Forall₂ Refines owns wholes) :
    Keeps (Reading.plainEach owns) (Reading.plainEach wholes) := by
  induction h with
  | nil => exact .refl _
  | cons hlast _ ih => exact ih.bind fun es => hlast.plain.bind fun e => .refl _

theorem ofNegation (h : List.Forall₂ Refines owns wholes) :
    Refines (Reading.ofNegation owns) (Reading.ofNegation wholes) := by
  cases h with
  | nil => exact .refl _
  | cons hlast hbefore =>
    cases hbefore with
    | nil => exact ⟨fun n => hlast.signed (n + 1), (hlast.signed 1).map _, (hlast.signed 1).map _⟩
    | cons _ _ => exact ofError _ _

theorem powerFactors (h : List.Forall₂ Refines owns wholes) :
    Keeps (Reading.powerFactors owns) (Reading.powerFactors wholes) := by
  cases h with
  | nil => exact .refl _
  | cons hright hbefore =>
    cases hbefore with
    | nil => exact .error _ _
    | cons hleft hbefore =>
      cases hbefore with
      | nil => exact hleft.factors.bind fun es => hright.plain.bind fun e => .refl _
      | cons _ _ => exact .error _ _

theorem ofPower (h : List.Forall₂ Refines owns wholes) :
    Refines (Reading.ofPower owns) (Reading.ofPower wholes) where
  signed _ := (powerFactors h).bind fun _ => .refl _
  factors := powerFactors h
  arguments := ((powerFactors h).bind fun _ => .refl _).map _

theorem ofGroup (h : List.Forall₂ Refines owns wholes) :
    Refines (Reading.ofGroup owns) (Reading.ofGroup wholes) := by
  cases h with
  | nil => exact .refl _
  | cons hlast hbefore =>
    cases hbefore with
    | nil => exact ⟨fun n => hlast.plain.map _, hlast.plain.map _, hlast.arguments⟩
    | cons _ _ => exact ⟨fun _ => .error _ _, .error _ _, .error _ _⟩

theorem ofSequence (h : List.Forall₂ Refines owns wholes) :
    Refines (Reading.ofSequence owns) (Reading.ofSequence wholes) :=
  ⟨fun _ => .error _ _, .error _ _, plainEach h⟩

theorem ofFold (op : BinaryOp) (h : List.Forall₂ Refines owns wholes) :
    Refines (Reading.ofFold op owns) (Reading.ofFold op wholes) := by
  unfold Reading.ofFold
  rw [← h.length_eq]
  split
  · exact .refl _
  · exact ofExpr ((plainEach h).bind fun _ => .refl _)

theorem ofBinary (op : BinaryOp) (h : List.Forall₂ Refines owns wholes) :
    Refines (Reading.ofBinary op owns) (Reading.ofBinary op wholes) := by
  cases h with
  | nil => exact .refl _
  | cons hright hbefore =>
    cases hbefore with
    | nil => exact ofError _ _
    | cons hleft hbefore =>
      cases hbefore with
      | nil => exact ofExpr (hleft.plain.bind fun l => hright.plain.bind fun r => .refl _)
      | cons _ _ => exact ofError _ _

theorem ofNot (h : List.Forall₂ Refines owns wholes) :
    Refines (Reading.ofNot owns) (Reading.ofNot wholes) := by
  cases h with
  | nil => exact .refl _
  | cons hlast hbefore =>
    cases hbefore with
    | nil => exact ofExpr (hlast.plain.map _)
    | cons _ _ => exact ofError _ _

theorem ofFunction (name : List Char) (h : List.Forall₂ Refines owns wholes) :
    Refines (Reading.ofFunction name owns) (Reading.ofFunction name wholes) := by
  cases h with
  | nil => exact .refl _
  | cons hlast _ => exact ofExpr (hlast.arguments.bind fun _ => .refl _)

end Refines

/-! ## Renamed trees -/

section Rename

variable {part whole : Lifted} {g : List Char → List Char}

theorem ofNode_rename (hg : ∀ name, Keeps (part.expand name) (whole.expand (g name)))
    (op : Operator) {owns wholes : List Reading} (h : List.Forall₂ Refines owns wholes) :
    Refines (ofNode part op owns) (ofNode whole (op.rename g) wholes) := by
  cases op with
  | root => exact .ofGroup h
  | neg => exact .ofNegation h
  | exp => exact .ofPower h
  | add | mul => exact .ofFold _ h
  | sub | div | mod | eq | ne | gt | lt | ge | le | and | or => exact .ofBinary _ h
  | not => exact .ofNot h
  | function chars => exact .ofFunction chars h
  | tuple => exact .ofSequence h
  | readName chars => exact .ofExpr (hg chars)
  | number | boolean => exact .refl _
  | quoted | chain | assign | writeName => exact .ofError _ _

mutual

/-- **A renamed tree has the same reading** where its names stand for the same. -/
theorem ofTree_rename (hg : ∀ name, Keeps (part.expand name) (whole.expand (g name))) :
    ∀ t : OperatorTree, Refines (ofTree part t) (ofTree whole (t.rename g))
  | .node op children => ofNode_rename hg op (ofTrees_rename hg children)

theorem ofTrees_rename (hg : ∀ name, Keeps (part.expand name) (whole.expand (g name))) :
    ∀ ts : List OperatorTree,
      List.Forall₂ Refines (ofTrees part ts) (ofTrees whole (OperatorTree.renameEach g ts))
  | [] => .nil
  | t :: rest => .cons (ofTree_rename hg t) (ofTrees_rename hg rest)

end

end Rename

end Reading

/-! ## Signs -/

def Sign.unaryOp : Sign → UnaryOp
  | .minus => .minus
  | .not => .not

/-- An expression with signs in front. -/
def Expr.signed (signs : List Sign) (e : Expr Float) : Expr Float :=
  signs.foldr (fun s e => .unary s.unaryOp e) e

/-- A tree with signs on top. -/
def OperatorTree.signed (signs : List Sign) (t : OperatorTree) : OperatorTree :=
  signs.foldr (fun s t => node s.operator [t]) t

theorem OperatorTree.under_singleton (signs : List Sign) (t : OperatorTree) :
    under signs [t] = [signed signs t] := by
  induction signs with
  | nil => rfl
  | cons s rest ih =>
    show [node s.operator (under rest [t])] = _
    rw [ih]
    rfl

theorem OperatorTree.signed_concat (signs : List Sign) (s : Sign) (t : OperatorTree) :
    signed (signs ++ [s]) t = signed signs (node s.operator [t]) :=
  List.foldr_append

theorem Expr.signed_concat (signs : List Sign) (s : Sign) (e : Expr Float) :
    Expr.signed (signs ++ [s]) e = Expr.signed signs (.unary s.unaryOp e) :=
  List.foldr_append

/-- Minus signs commute with each other. -/
theorem Expr.negateTimes_minus (n : Nat) (e : Expr Float) :
    Expr.negateTimes n (.unary .minus e) = Expr.negateTimes (n + 1) e := by
  induction n with
  | zero => rfl
  | succ n ih => rw [Expr.negateTimes, ih, ← Expr.negateTimes]

namespace Reading

open OperatorTree

variable {lifted : Lifted} {t : OperatorTree} {e : Expr Float}

/-- The tree stands for one expression, and minus signs in front of it are its own. -/
def Denotes (lifted : Lifted) (t : OperatorTree) (e : Expr Float) : Prop :=
  ∀ n, (ofTree lifted t).signed n = .ok (Expr.negateTimes n e)

theorem Denotes.not (h : (ofTree lifted t).plain = .ok e) :
    Denotes lifted (node .not [t]) (.unary .not e) := by
  intro n
  show (Except.map _ (Except.map _ (ofTree lifted t).plain)) = _
  rw [h]
  rfl

theorem Denotes.minus (h : Denotes lifted t e) :
    Denotes lifted (node .neg [t]) (.unary .minus e) := by
  intro n
  rw [Expr.negateTimes_minus]
  exact h (n + 1)

/-- Signs in front of an operand apply to it from the inside out. -/
theorem Denotes.signed (h : Denotes lifted t e) (signs : List Sign) :
    Denotes lifted (OperatorTree.signed signs t) (Expr.signed signs e) := by
  induction signs with
  | nil => exact h
  | cons s rest ih =>
    cases s with
    | minus => exact ih.minus
    | not => exact .not (ih 0)

/-! ## Rows of powers -/

/-- The tree stands for a row of operands, to the first of which the minus signs in front go. -/
structure IsRow (lifted : Lifted) (t : OperatorTree) (es : List (Expr Float)) : Prop where
  signed : ∀ n, (ofTree lifted t).signed n = Expr.signedPowers n es
  factors : (ofTree lifted t).factors = .ok es

theorem IsRow.power {es : List (Expr Float)} {right : OperatorTree} (h : IsRow lifted t es)
    (hright : Denotes lifted right e) : IsRow lifted (node .exp [right, t]) (es ++ [e]) := by
  have hfactors : powerFactors [ofTree lifted right, ofTree lifted t] = .ok (es ++ [e]) := by
    have hplain : (ofTree lifted right).plain = .ok e := hright 0
    rw [powerFactors, h.factors, hplain]
    rfl
  constructor
  · intro n
    show (powerFactors [ofTree lifted right, ofTree lifted t]).bind (Expr.signedPowers n) = _
    rw [hfactors]
    rfl
  · exact hfactors

/-- **A row of powers stands for all of its operands.** -/
theorem IsRow.powerTree {es : List (Expr Float)} (h : IsRow lifted t es) {terms : List Term}
    {ws : List (Expr Float)}
    (hterms : List.Forall₂
      (fun term w => Denotes lifted (OperatorTree.signed term.signs term.tree) w) terms ws) :
    IsRow lifted (OperatorTree.powerTree t terms) (es ++ ws) := by
  induction hterms generalizing t es with
  | nil => rwa [List.append_nil]
  | @cons term w _ ws hfirst _ ih =>
    rw [OperatorTree.powerTree, under_singleton, List.append_cons es w ws]
    exact ih (h.power hfirst)

/-- An operand by itself is a row. -/
theorem IsRow.denotes (h : IsRow lifted t [e]) : Denotes lifted t e := h.signed

/-- One expression, whatever stands around it. -/
def IsUniform (r : Reading) : Prop :=
  ∃ x : Except ReadError (Expr Float),
    (∀ n, r.signed n = x.map (Expr.negateTimes n)) ∧ r.factors = x.map ([·])

theorem isUniform_ofExpr (x : Except ReadError (Expr Float)) : IsUniform (ofExpr x) :=
  ⟨x, fun _ => rfl, rfl⟩

theorem isUniform_ofGroup (children : List Reading) : IsUniform (ofGroup children) :=
  ⟨_, fun _ => rfl, rfl⟩

theorem isUniform_operand {tokens : List Token} (ht : IsOperand tokens t) (lifted : Lifted) :
    IsUniform (ofTree lifted t) := by
  cases ht with
  | number x => exact isUniform_ofExpr (.ok (.const x))
  | boolean b => exact isUniform_ofExpr (.ok (.const (Literal.ofBool b)))
  | name chars => exact isUniform_ofExpr (lifted.expand chars)
  | group hbody ht =>
    obtain ⟨op, children⟩ := t
    cases group_operator hbody ht
    exact isUniform_ofGroup _
  | call => exact isUniform_ofExpr _

/-- **An operand stands for the same expression in a row**, if its names stand for the same. -/
theorem isRow_rename {tokens : List Token} {part whole : Lifted} {g : List Char → List Char}
    (ht : IsOperand tokens t) (he : (ofTree part t).plain = .ok e)
    (hg : ∀ name, Keeps (part.expand name) (whole.expand (g name))) :
    IsRow whole (t.rename g) [e] := by
  obtain ⟨x, hsigned, hfactors⟩ := isUniform_operand ht part
  have hx : x = .ok e := by
    obtain ⟨e', hx, rfl⟩ := map_eq_ok ((hsigned 0).symm.trans he)
    exact hx
  subst hx
  have hrefines := ofTree_rename hg t
  exact ⟨fun n => hrefines.signed n _ (hsigned n), hrefines.factors _ hfactors⟩

/-- The minus signs in front of a row go to its first operand; the signs up to the last `!` apply to
the whole row. -/
theorem plain_signed_row {ws : List (Expr Float)} (signs : List Sign)
    (h : ∀ n, (ofTree lifted t).signed n = .ok (Expr.powers (Expr.negateTimes n e) ws)) :
    (ofTree lifted (OperatorTree.signed signs t)).plain =
      .ok (Expr.signed (signs.rdropWhile (· = .minus))
        (Expr.powers (Expr.signed (signs.rtakeWhile (· = .minus)) e) ws)) := by
  -- From the innermost sign outwards: a minus sign is taken over by the base, and the induction
  -- goes on with a negated base; at a `!` the row has become one expression.
  induction signs using List.reverseRecOn generalizing t e with
  | nil => exact h 0
  | append_singleton signs s ih =>
    rw [OperatorTree.signed_concat]
    cases s with
    | minus =>
      rw [List.rdropWhile_concat_pos _ _ _ (by rfl), List.rtakeWhile_concat_pos _ _ _ (by rfl),
        Expr.signed_concat]
      refine ih fun n => ?_
      rw [Sign.unaryOp, Expr.negateTimes_minus]
      exact h (n + 1)
    | not =>
      rw [List.rdropWhile_concat_neg _ _ _ (by simp), List.rtakeWhile_concat_neg _ _ _ (by simp),
        Expr.signed_concat]
      exact (Denotes.not (h 0)).signed signs 0

end Reading

end CircuitExpr
