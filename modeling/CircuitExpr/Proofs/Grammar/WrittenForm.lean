import Mathlib
import CircuitExpr.Expr.Write
import CircuitExpr.Proofs.Decimal.Display
import CircuitExpr.Proofs.Grammar.Sites

/-!
# Written forms are read back

The written form of an expression puts every operator with two operands in parentheses, so reading
it back needs no precedences, but for one: a minus sign in front of a base is taken for the sign
of the power and given back to the base. Numbers and references are numbered on the way and found
again under their numbers.

Not every expression has a written form that says everything. The quantity of a parameter is not
written; a name may be read as a number or a truth value, or look like a placeholder; `^^` is no
operator of texts; and a `!` in front of a base would be read as one in front of the power.

## Main statements

* `Expr.Printable` — the expressions whose written forms say everything
* `Printed` — how a written form is read: segments, tokens, tree and expression
* `Expr.parse_text` — the written form of a printable expression is read as that expression
-/

namespace CircuitExpr

/-! ## Printable expressions -/

/-- A name that is read as a name, and not as a number, a truth value or a placeholder. -/
structure IsIdentifier (name : String) : Prop where
  chars : ∃ c rest, name.toList = c :: rest ∧ Text.isNameStart c = true ∧
    ∀ d ∈ rest, Text.isNameChar d = true
  /-- In any case. -/
  word : String.ofList (name.toList.map Char.toLower) ∉ ["true", "false", "inf", "infinity", "nan"]
  literal : ¬ Lifted.literalStem <+: name.toList
  reference : ¬ Lifted.referenceStem <+: name.toList

/-- The expressions whose written forms say everything. -/
inductive Expr.Printable : Expr Float → Prop
  | const {x : Float} : x.isFinite = true → Binary64.signBit x = false → Printable (.const x)
  | reference {name : String} {kind : VariableKind} (quantity : Quantity) :
    kind ≠ .parameter → Segment.IsNode name.toList → Printable (.var ⟨name, kind, quantity⟩)
  | parameter {name : String} : IsIdentifier name → Printable (.var (.parameter name))
  | unary {op : UnaryOp} {operand : Expr Float} : op ≠ .plus → Printable operand →
    Printable (.unary op operand)
  | binary {op : BinaryOp} {left right : Expr Float} : op ≠ .xor →
    (op = .pow → ∀ e, left ≠ .unary .not e) → Printable left → Printable right →
      Printable (.binary op left right)
  | call {name : String} {arguments : List (Expr Float)} : IsIdentifier name →
    Text.lowerChars name.toList ∉ ["if".toList, "xor".toList] →
      Segment.referenceKind? name.toList = none → (∀ e ∈ arguments, Printable e) →
        Printable (.call name arguments)

/-! ## Identifiers -/

namespace IsIdentifier

variable {name : String}

theorem isPlaceholder (h : IsIdentifier name) : Lifted.isPlaceholder name.toList = false := by
  rw [Lifted.isPlaceholder, Lifted.index?_of_not_prefix h.literal,
    Lifted.index?_of_not_prefix h.reference]
  rfl

/-- An identifier is no number. -/
theorem read?_eq_none (h : IsIdentifier name) : Decimal.read? name.toList = none := by
  obtain ⟨c, rest, hname, hc, -⟩ := h.chars
  have hword := h.word
  simp only [List.mem_cons, List.not_mem_nil, or_false, not_or] at hword
  obtain ⟨-, -, hinf, hinfinity, hnan⟩ := hword
  have hne : ∀ d, Text.isNameStart d = false → c ≠ d := by
    rintro d hd rfl
    rw [hc] at hd
    cases hd
  have hdigit : c.isDigit = false := by
    cases hdigit : c.isDigit with
    | false => rfl
    | true => exact absurd rfl (hne c (Segment.isNameStart_of_isDigit hdigit))
  have hpoint : c = '.' → ∀ d ∈ rest.head?, d.isDigit = false :=
    fun h => absurd h (hne '.' (by decide +kernel))
  rw [hname] at hinf hinfinity hnan ⊢
  cases hread : Decimal.read? (c :: rest) with
  | none => rfl
  | some x =>
    have hword := Decimal.word_of_read? hdigit hpoint
      ⟨hne '-' (by decide +kernel), hne '+' (by decide +kernel)⟩ hread
    simp only [List.mem_cons, List.not_mem_nil, or_false] at hword
    exact absurd hword (by simp only [hinf, hinfinity, hnan, or_self, not_false_eq_true])

theorem ofRun (h : IsIdentifier name) : Token.ofRun name.toList = .name name.toList := by
  have hword := h.word
  simp only [List.mem_cons, List.not_mem_nil, or_false, not_or] at hword
  obtain ⟨htrue, hfalse, -⟩ := hword
  have hne : ∀ word : String, String.ofList (word.toList.map Char.toLower) = word →
      String.ofList (name.toList.map Char.toLower) ≠ word →
        (name.toList == word.toList) = false := by
    intro word hlower hother
    rw [beq_eq_false_iff_ne]
    intro hsame
    rw [hsame] at hother
    exact hother hlower
  rw [Token.ofRun, h.read?_eq_none]
  simp only [hne "true" (by decide +kernel) htrue, hne "false" (by decide +kernel) hfalse,
    Bool.false_eq_true, if_false]

/-- No placeholder begins with a letter. -/
theorem of_letter (c : Char) (rest : List Char) (hc : Text.isNameStart c = true)
    (hunderscore : c ≠ '_') (hrest : ∀ d ∈ rest, Text.isNameChar d = true)
    (hword : String.ofList ((c :: rest).map Char.toLower) ∉
      ["true", "false", "inf", "infinity", "nan"]) : IsIdentifier (String.ofList (c :: rest)) := by
  refine ⟨⟨c, rest, String.toList_ofList, hc, hrest⟩, ?_, ?_, ?_⟩
  · rwa [String.toList_ofList]
  · rw [String.toList_ofList]
    intro hprefix
    exact hunderscore (List.cons_prefix_cons.mp hprefix).1.symm
  · rw [String.toList_ofList]
    intro hprefix
    exact hunderscore (List.cons_prefix_cons.mp hprefix).1.symm

end IsIdentifier

/-! ## What operands stand for -/

namespace Reading

open OperatorTree

variable {lifted : Lifted} {t right : OperatorTree} {e a b : Expr Float}

/-- The tree stands for one expression in every place. -/
structure IsExpr (lifted : Lifted) (t : OperatorTree) (e : Expr Float) : Prop where
  denotes : Denotes lifted t e
  factors : (ofTree lifted t).factors = .ok [e]
  arguments : (ofTree lifted t).arguments = .ok [e]

theorem isExpr_ofExpr (h : ofTree lifted t = ofExpr (.ok e)) : IsExpr lifted t e := by
  constructor
  · intro n
    rw [h]
    rfl
  · rw [h]
    rfl
  · rw [h]
    rfl

namespace IsExpr

theorem plain (h : IsExpr lifted t e) : (ofTree lifted t).plain = .ok e := h.denotes 0

theorem isRow (h : IsExpr lifted t e) : IsRow lifted t [e] := ⟨h.denotes, h.factors⟩

theorem sign (h : IsExpr lifted t e) (s : Sign) :
    IsExpr lifted (node s.operator [t]) (.unary s.unaryOp e) := by
  cases s with
  | minus =>
    have hone : (ofTree lifted t).signed 1 = .ok (.unary .minus e) := h.denotes 1
    refine ⟨h.denotes.minus, ?_, ?_⟩
    · show ((ofTree lifted t).signed 1).map ([·]) = _
      rw [hone]
      rfl
    · show ((ofTree lifted t).signed 1).map ([·]) = _
      rw [hone]
      rfl
  | not =>
    refine isExpr_ofExpr ?_
    show ofExpr ((ofTree lifted t).plain.map (.unary .not)) = _
    rw [h.plain]
    rfl

theorem signed (h : IsExpr lifted t e) (signs : List Sign) :
    IsExpr lifted (OperatorTree.signed signs t) (Expr.signed signs e) := by
  induction signs with
  | nil => exact h
  | cons s rest ih => exact ih.sign s

end IsExpr

/-- A group stands for what is in it. -/
theorem isExpr_group (hplain : (ofTree lifted t).plain = .ok e)
    (harguments : (ofTree lifted t).arguments = .ok [e]) : IsExpr lifted (node .root [t]) e := by
  constructor
  · intro n
    show ((ofTree lifted t).plain).map (Expr.negateTimes n) = _
    rw [hplain]
    rfl
  · show ((ofTree lifted t).plain).map ([·]) = _
    rw [hplain]
    rfl
  · exact harguments

/-- Operators with two operands, the power apart. -/
theorem IsExpr.binary {left : OperatorTree} (hleft : IsExpr lifted left a)
    (hright : IsExpr lifted right b) {op : BinaryOp} {token : Token} {operator : Operator}
    (hop : op.node? = some (token, operator)) (hpow : op ≠ .pow) :
    IsExpr lifted (node operator [right, left]) (.binary op a b) := by
  have hfold : ∀ op, ofFold op [ofTree lifted right, ofTree lifted left] =
      ofExpr (.ok (.binary op a b)) := by
    intro op
    show ofExpr ((plainEach [ofTree lifted right, ofTree lifted left]).bind _) = _
    rw [plainEach, plainEach, plainEach, hleft.plain, hright.plain]
    rfl
  have hbinary : ∀ op, ofBinary op [ofTree lifted right, ofTree lifted left] =
      ofExpr (.ok (.binary op a b)) := by
    intro op
    rw [ofBinary, hleft.plain, hright.plain]
    rfl
  refine isExpr_ofExpr ?_
  cases op <;> cases hop <;>
    first | exact absurd rfl hpow | exact hfold _ | exact hbinary _

/-- A power whose base has at most a minus sign in front. -/
theorem isExpr_power (ha : IsExpr lifted t a) (hb : IsExpr lifted right b) {signs : List Sign}
    (hsigns : signs = [] ∨ signs = [.minus]) :
    IsExpr lifted (node .root [OperatorTree.signed signs (node .exp [right, t])])
      (.binary .pow (Expr.signed signs a) b) := by
  have hrow := (ha.isRow.power hb.denotes).signed
  rcases hsigns with rfl | rfl
  · refine isExpr_group (hrow 0) ?_
    show ((ofTree lifted (node .exp [right, t])).signed 0).map ([·]) = _
    rw [hrow 0]
    rfl
  · refine isExpr_group (hrow 1) ?_
    show ((ofTree lifted (node .exp [right, t])).signed 1).map ([·]) = _
    rw [hrow 1]
    rfl

/-- The expressions of children, of which the last one comes first. -/
theorem plainEach_reverse {rs before : List Reading} {es : List (Expr Float)}
    (h : List.Forall₂ (fun r e => r.plain = .ok e) rs es) {front : List (Expr Float)}
    (hbefore : plainEach before = .ok front) :
    plainEach (rs.reverse ++ before) = .ok (front ++ es) := by
  induction h generalizing before front with
  | nil => rwa [List.append_nil]
  | @cons r e rs es hr _ ih =>
    have hcons : plainEach (r :: before) = .ok (front ++ [e]) := by
      rw [plainEach, hbefore, hr]
      rfl
    rw [List.reverse_cons, List.append_assoc, List.append_cons front e es]
    exact ih hcons

/-- **The arguments of a call.** -/
theorem arguments_eq {trees : List OperatorTree} {es : List (Expr Float)}
    (h : List.Forall₂ (IsExpr lifted) trees es) :
    (ofTree lifted (node .root (argumentTrees trees.reverse))).arguments = .ok es := by
  cases h with
  | nil => rfl
  | @cons t e trees es ht htrees =>
    cases htrees with
    | nil => exact ht.arguments
    | @cons t' e' trees es ht' htrees =>
      have hgroup : ∀ t e, IsExpr lifted t e → (ofTree lifted (enclosed t)).plain = .ok e :=
        fun t e h => (isExpr_group h.plain h.arguments).plain
      have hplain : List.Forall₂ (fun r e => r.plain = .ok e)
          ((t :: t' :: trees).map fun t => ofTree lifted (enclosed t)) (e :: e' :: es) :=
        List.forall₂_map_left_iff.mpr (.cons (hgroup _ _ ht) (.cons (hgroup _ _ ht')
          (htrees.imp fun _ _ => hgroup _ _)))
      have heach := plainEach_reverse hplain (show plainEach [] = .ok [] from rfl)
      rw [argumentTrees_of_length (by simp)]
      show plainEach (ofTrees lifted ((t :: t' :: trees).reverse.map enclosed)) = _
      rw [ofTrees_eq_map, List.map_map, List.map_reverse]
      rwa [List.append_nil, List.nil_append] at heach

end Reading

/-! ## How a written form is read -/

namespace Lifted

variable (segments more : List Segment)

@[simp] theorem literalCount_append :
    literalCount (segments ++ more) = literalCount segments + literalCount more := by
  rw [literalCount, List.filterMap_append, List.length_append]
  rfl

@[simp] theorem referenceCount_append :
    referenceCount (segments ++ more) = referenceCount segments + referenceCount more := by
  rw [referenceCount, List.filterMap_append, List.length_append]
  rfl

@[simp] theorem literalCount_char (c : Char) :
    literalCount (.char c :: segments) = literalCount segments := rfl

@[simp] theorem referenceCount_char (c : Char) :
    referenceCount (.char c :: segments) = referenceCount segments := rfl

@[simp] theorem literalCount_nil : literalCount [] = 0 := rfl

@[simp] theorem referenceCount_nil : referenceCount [] = 0 := rfl

end Lifted

def Sign.char : Sign → Char
  | minus => '-'
  | not => '!'

open OperatorTree Lifted in
/--
How the written form of an expression is read behind so many numbers and references: as an operand
that may have a sign in front.
-/
structure Printed (e : Expr Float) (l r : Nat) where
  segments : List Segment
  tokens : List Token
  sign : Option Sign
  core : OperatorTree
  inner : Expr Float
  value : e = Expr.signed sign.toList inner
  lexes {text : List Char} {more : List Segment} {pieces : List Piece} {others : List Token} :
    Lexes (l + literalCount segments) (r + referenceCount segments) text more pieces others →
      Segment.Stops text → ∃ pieces', Lexes l r (e.text.toList ++ text) (segments ++ more) pieces'
        (tokens ++ others)
  build {around : List OperatorTree → List OperatorTree} {after : Option Token} :
    Opens around → (∀ chars, ofName chars after = .readName chars) →
      buildBefore after false tokens (around []) =
        .ok (around [OperatorTree.signed sign.toList core])
  ends : endsAfter false tokens = true
  isWhole : 190 ≤ core.operator.precedence
  reading {whole : Lifted} : Extends whole l r (ofSegments segments) →
    Reading.IsExpr whole core inner

namespace Printed

open OperatorTree Lifted

variable {e : Expr Float} {l r : Nat}

/-- The tree of the operand. -/
def tree (p : Printed e l r) : OperatorTree := OperatorTree.signed p.sign.toList p.core

theorem isExpr (p : Printed e l r) {whole : Lifted}
    (h : Extends whole l r (ofSegments p.segments)) : Reading.IsExpr whole p.tree e := by
  have hsigned := (p.reading h).signed p.sign.toList
  rwa [← p.value] at hsigned

/-- Only a power goes below the sign of an operand. -/
theorem precedence (p : Printed e l r) : 110 ≤ p.tree.operator.precedence := by
  have hcore := p.isWhole
  unfold tree
  cases p.sign with
  | none => exact Nat.le_trans (by decide) hcore
  | some s => cases s <;> exact Nat.le_refl 110

/-! ### Values -/

/-- A single segment that is one name. -/
def atom (segment : Segment) (name : List Char)
    (hlexes : ∀ {text : List Char} {more : List Segment} {pieces : List Piece}
      {others : List Token},
      Lexes (l + literalCount [segment]) (r + referenceCount [segment]) text more pieces others →
        Segment.Stops text → ∃ pieces', Lexes l r (e.text.toList ++ text) (segment :: more) pieces'
          (.name name :: others))
    (hname : ∀ {whole : Lifted}, Extends whole l r (ofSegments [segment]) →
      whole.expand name = .ok e) : Printed e l r where
  segments := [segment]
  tokens := [.name name]
  sign := none
  core := node (.readName name) []
  inner := e
  value := rfl
  lexes := hlexes
  build := by
    intro around after haround hafter
    have hplace : place false (.name name) after (around []) =
        .ok (around [node (.readName name) []]) := by
      rw [← haround.fill (node (.readName name) []) rfl, ← hafter name]
      rfl
    exact congrArg (Except.bind · _) hplace
  ends := rfl
  isWhole := Nat.le_of_ble_eq_true rfl
  reading h := by
    refine Reading.isExpr_ofExpr ?_
    show Reading.ofExpr (_) = _
    rw [hname h]

theorem expand_literal {whole : Lifted} {cs : List Char} {x : Float}
    (h : Extends whole l r (ofSegments [.literal cs x])) :
    whole.expand (placeholder literalStem l) = .ok (.const x) := by
  have hpart : expand (ofSegments [.literal cs x]) (placeholder literalStem 0) =
      .ok (.const x) := rfl
  have hshift := expand_shift h hpart
  rwa [shift_literal (Nat.zero_le _)] at hshift

theorem expand_reference {whole : Lifted} {cs : List Char}
    (h : Extends whole l r (ofSegments [.reference cs e])) :
    whole.expand (placeholder referenceStem r) = .ok e := by
  have hpart : expand (ofSegments [.reference cs e]) (placeholder referenceStem 0) = .ok e := rfl
  have hshift := expand_shift h hpart
  rwa [shift_reference (Nat.zero_le _)] at hshift

def const {x : Float} (hfinite : x.isFinite = true) (hsign : Binary64.signBit x = false) :
    Printed (.const x) l r :=
  atom (.literal (Decimal.display x).toList x) (placeholder literalStem l)
    (fun hmore htext => by
      rw [Expr.text]
      exact ⟨_, hmore.number htext (Decimal.display_spec hfinite hsign)
        (Decimal.read?_display hfinite hsign)⟩)
    expand_literal

theorem text_reference {kind : VariableKind} (hkind : kind ≠ .parameter) (quantity : Quantity)
    (name : String) : (Variable.text ⟨name, kind, quantity⟩).toList =
      Segment.referenceChars kind quantity name.toList := by
  cases kind with
  | parameter => exact absurd rfl hkind
  | voltage | current =>
    simp [Variable.text, Segment.referenceChars, Segment.referenceWord, String.toList_append]

def reference {name : String} {kind : VariableKind} (quantity : Quantity)
    (hkind : kind ≠ .parameter) (hname : Segment.IsNode name.toList) :
    Printed (.var ⟨name, kind, quantity⟩) l r :=
  atom (.reference (Segment.referenceChars kind quantity name.toList) (.var ⟨name, kind, quantity⟩))
    (placeholder referenceStem r)
    (fun hmore htext => by
      have hlexes := hmore.reference htext hkind quantity hname
      rw [String.ofList_toList] at hlexes
      rw [Expr.text, text_reference hkind]
      exact ⟨_, hlexes⟩)
    expand_reference

def parameter {name : String} (hname : IsIdentifier name) :
    Printed (.var (.parameter name)) l r :=
  atom (.word name.toList) name.toList
    (fun hmore htext => by
      obtain ⟨c, rest, hchars, hc, hrest⟩ := hname.chars
      have hlexes := hmore.word (hmore.head_of_stops htext) hc hrest
        (htext.not (by decide +kernel)) (.inr htext.paren)
      rw [← hchars, hname.ofRun] at hlexes
      rw [Expr.text]
      exact ⟨_, hlexes⟩)
    fun _ => by
      rw [expand_of_not_placeholder _ hname.isPlaceholder, String.ofList_toList]

/-! ### Signs -/

theorem stops_close (text : List Char) : Segment.Stops (')' :: text) := by
  constructor
  · rintro _ ⟨⟩
    decide
  · exact (by decide : some ')' ≠ some '(')

theorem endsAfter_close (afterValue : Bool) (tokens : List Token) :
    endsAfter afterValue (tokens ++ [.closeParen]) = true := by
  rw [endsAfter_append]
  rfl

theorem text_sign (s : Sign) (e : Expr Float) :
    (Expr.unary s.unaryOp e).text.toList = s.char :: '(' :: (e.text.toList ++ [')']) := by
  rw [Expr.text]
  cases s <;> simp [String.toList_append, Sign.unaryOp, Sign.char, UnaryOp.symbol]

/-- An operand in parentheses with a sign in front. -/
def unary (s : Sign) (p : Printed e l r) : Printed (.unary s.unaryOp e) l r where
  segments := .char s.char :: .char '(' :: (p.segments ++ [.char ')'])
  tokens := s.token :: .openParen :: (p.tokens ++ [.closeParen])
  sign := some s
  core := node .root [p.tree]
  inner := e
  value := rfl
  lexes := by
    intro text more pieces others hmore htext
    simp only [literalCount_char, literalCount_append, literalCount_nil, Nat.add_zero,
      referenceCount_char, referenceCount_append, referenceCount_nil] at hmore
    obtain ⟨pieces', hoperand⟩ := p.lexes (hmore.bracket (c := ')') (by decide)) (stops_close text)
    have hopen := hoperand.bracket (c := '(') (by decide)
    have hsign : IsMarker s.char := by
      cases s
      · exact .inr (.inl rfl)
      · exact .inr (.inr rfl)
    have htoken : Token.ofMarker s.char = [s.token] := by cases s <;> rfl
    have hlexes := hopen.marker hsign
    rw [htoken] at hlexes
    rw [text_sign]
    simp only [List.cons_append, List.append_assoc, List.nil_append]
    exact ⟨_, hlexes⟩
  build := by
    intro around after haround hafter
    have hplace : place false s.token (some .openParen) (around []) =
        .ok (around [node s.operator []]) := by
      rw [← haround.fill (node s.operator []) (by cases s <;> rfl)]
      cases s <;> rfl
    refine (congrArg (Except.bind · _) hplace).trans ?_
    exact (haround.sign s).group_single (p.build (holds_group _).opens fun _ => rfl) after
      s.token.endsValue
  ends := by
    show endsAfter s.token.endsValue (.openParen :: p.tokens ++ [.closeParen]) = true
    exact endsAfter_close _ _
  isWhole := Nat.le_of_ble_eq_true rfl
  reading := by
    intro whole h
    have hoperand := p.isExpr (h.chars [s.char, '(']).append.1
    exact Reading.isExpr_group hoperand.plain hoperand.arguments

/-! ### Operators -/

theorem text_binary (op : BinaryOp) (a b : Expr Float) :
    (Expr.binary op a b).text.toList =
      '(' :: (a.text.toList ++ (op.padded ++ (b.text.toList ++ [')']))) := by
  rw [Expr.text]
  simp [String.toList_append, BinaryOp.padded]

section Binary

variable {a b : Expr Float} {op : BinaryOp} {token : Token} {operator : Operator}

/-- The segments of two operands with an operator between them. -/
def betweenSegments (op : BinaryOp) (pa : Printed a l r)
    (pb : Printed b (l + literalCount pa.segments) (r + referenceCount pa.segments)) :
    List Segment :=
  .char '(' :: (pa.segments ++ (op.padded.map .char ++ (pb.segments ++ [.char ')'])))

/-- The tokens of two operands with an operator between them. -/
def betweenTokens (token : Token) (pa : Printed a l r)
    (pb : Printed b (l + literalCount pa.segments) (r + referenceCount pa.segments)) :
    List Token :=
  .openParen :: (pa.tokens ++ token :: pb.tokens ++ [.closeParen])

variable {pa : Printed a l r}
  {pb : Printed b (l + literalCount pa.segments) (r + referenceCount pa.segments)}

theorem lexes_between (hop : op.node? = some (token, operator)) {text : List Char}
    {more : List Segment} {pieces : List Piece} {others : List Token}
    (hmore : Lexes (l + literalCount (betweenSegments op pa pb))
      (r + referenceCount (betweenSegments op pa pb)) text more pieces others) :
    ∃ pieces', Lexes l r ((Expr.binary op a b).text.toList ++ text)
      (betweenSegments op pa pb ++ more) pieces' (betweenTokens token pa pb ++ others) := by
  simp only [betweenSegments, literalCount_char, literalCount_append, literalCount_nil,
    literalCount_chars, Nat.add_zero, Nat.zero_add, referenceCount_char, referenceCount_append,
    referenceCount_nil, referenceCount_chars, ← Nat.add_assoc] at hmore
  obtain ⟨_, hright⟩ := pb.lexes (hmore.bracket (c := ')') (by decide)) (stops_close text)
  obtain ⟨_, hleft⟩ := pa.lexes (hright.operator hop) (op.stops_padded _)
  have hopen := hleft.bracket (c := '(') (by decide)
  rw [text_binary, betweenSegments, betweenTokens]
  simp only [List.cons_append, List.append_assoc, List.nil_append]
  exact ⟨_, hopen⟩

theorem extends_between {whole : Lifted}
    (h : Extends whole l r (ofSegments (betweenSegments op pa pb))) :
    Reading.IsExpr whole pa.tree a ∧ Reading.IsExpr whole pb.tree b ∧
      Reading.IsExpr whole pa.core pa.inner := by
  obtain ⟨hleft, hrest⟩ := (h.chars ['(']).append
  have hright := (hrest.chars op.padded).append.1
  exact ⟨pa.isExpr hleft, pb.isExpr hright, pa.reading hleft⟩

/-- The contents of the parentheses, given the node that the operator takes its place in. -/
theorem build_between (hop : op.node? = some (token, operator))
    {around : List OperatorTree → List OperatorTree} (haround : Opens around)
    (edge : List OperatorTree → List OperatorTree) (left : List OperatorTree) {t : OperatorTree}
    (hedge : IsHole fun ts => edge (ts ++ left)) (htree : edge ([pb.tree] ++ left) = [t])
    (hplace : ∀ next, place true token next (node .root [pa.tree] :: around []) =
      .ok (node .root (edge ([] ++ left)) :: around [])) (after : Option Token) :
    buildBefore after false (betweenTokens token pa pb) (around []) =
      .ok (around [node .root [t]]) := by
  have hbetween := isBetween_of_node? hop
  refine haround.group_single ?_ after false
  rw [buildBefore_append, pa.ends]
  refine (congrArg (Except.bind · _)
    (pa.build (holds_group (around [])).opens hbetween.name)).trans ?_
  show (place true token _ (node .root [pa.tree] :: around [])).bind _ = _
  rw [hplace, hbetween.ends]
  refine (pb.build ((holds_group (around [])).opens.hole hedge) fun _ => rfl).trans ?_
  rw [← htree]
  rfl

/-- Two operands with an operator between them that is no power. -/
def binary (hop : op.node? = some (token, operator)) (hpow : op ≠ .pow) (pa : Printed a l r)
    (pb : Printed b (l + literalCount pa.segments) (r + referenceCount pa.segments)) :
    Printed (.binary op a b) l r where
  segments := betweenSegments op pa pb
  tokens := betweenTokens token pa pb
  sign := none
  core := node .root [node operator [pb.tree, pa.tree]]
  inner := .binary op a b
  value := rfl
  lexes hmore _ := lexes_between hop hmore
  build := by
    intro around after haround _
    have hbetween := isBetween_of_node? hop
    have hless : operator.precedence < pa.tree.operator.precedence := by
      have htree := pa.precedence
      have hweak := precedence_of_node? hop hpow
      omega
    exact build_between hop haround (fun ts => [node operator ts]) [pa.tree]
      (isHole_operand hbetween.maxChildren hbetween.precedence pa.tree) rfl
      (hbetween.take (holds_group (around [])) hless) after
  ends := endsAfter_close _ _
  isWhole := Nat.le_of_ble_eq_true rfl
  reading := by
    intro whole h
    obtain ⟨ha, hb, -⟩ := extends_between h
    have hexpr := ha.binary hb hop hpow
    exact Reading.isExpr_group hexpr.plain hexpr.arguments

theorem power_node? : BinaryOp.pow.node? = some (.power, .exp) := rfl

/-- A power, whose base may have a minus sign in front. -/
def power (pa : Printed a l r)
    (pb : Printed b (l + literalCount pa.segments) (r + referenceCount pa.segments))
    (hsign : pa.sign ≠ some .not) : Printed (.binary .pow a b) l r where
  segments := betweenSegments .pow pa pb
  tokens := betweenTokens .power pa pb
  sign := none
  core := node .root [OperatorTree.signed pa.sign.toList (node .exp [pb.tree, pa.core])]
  inner := .binary .pow a b
  value := rfl
  lexes hmore _ := lexes_between power_node? hmore
  build := by
    intro around after haround _
    have hless : 120 < pa.core.operator.precedence := Nat.lt_of_lt_of_le (by decide) pa.isWhole
    have hplace : ∀ next, place true .power next (node .root [pa.tree] :: around []) =
        .ok (node .root (under pa.sign.toList [node .exp [pa.core]]) :: around []) := by
      intro next
      rw [tree, ← under_singleton]
      exact (holds_group (around [])).power pa.sign.toList hless next
    exact build_between power_node? haround
      (fun ts => under pa.sign.toList [node .exp ts]) [pa.core]
      ((isHole_id.under pa.sign.toList).power pa.core) (under_singleton _ _) hplace after
  ends := endsAfter_close _ _
  isWhole := Nat.le_of_ble_eq_true rfl
  reading := by
    intro whole h
    obtain ⟨-, hb, ha⟩ := extends_between h
    have hsigns : pa.sign.toList = [] ∨ pa.sign.toList = [.minus] := by
      cases hs : pa.sign with
      | none => exact .inl rfl
      | some s =>
        cases s with
        | minus => exact .inr rfl
        | not => exact absurd hs hsign
    have hexpr := Reading.isExpr_power ha hb hsigns
    rwa [← pa.value] at hexpr

end Binary

/-! ### Calls -/

/-- Arguments behind the first one, each with a comma in front. -/
structure Further (es : List (Expr Float)) (l r : Nat) where
  segments : List Segment
  tokens : List Token
  trees : List OperatorTree
  lexes {text : List Char} {more : List Segment} {pieces : List Piece} {others : List Token} :
    Lexes (l + literalCount segments) (r + referenceCount segments) text more pieces others →
      Segment.Stops text →
        Segment.Stops (es.flatMap (fun e => ',' :: ' ' :: e.text.toList) ++ text) ∧
          ∃ pieces', Lexes l r (es.flatMap (fun e => ',' :: ' ' :: e.text.toList) ++ text)
            (segments ++ more) pieces' (tokens ++ others)
  build (base : List OperatorTree) (last : OperatorTree) (before : List OperatorTree) :
    buildBefore (some .closeParen) true tokens (argumentStack base (last :: before)) =
      .ok (argumentStack base (trees.reverse ++ last :: before))
  /-- A name in front is no function. -/
  name : ∀ chars, ofName chars (tokens.head?.or (some .closeParen)) = .readName chars
  reading {whole : Lifted} : Extends whole l r (ofSegments segments) →
    List.Forall₂ (Reading.IsExpr whole) trees es

namespace Further

variable {es : List (Expr Float)}

def nil : Further [] l r where
  segments := []
  tokens := []
  trees := []
  lexes hmore htext := ⟨htext, _, hmore⟩
  build _ _ _ := rfl
  name _ := rfl
  reading _ := .nil

def cons (p : Printed e l r)
    (rest : Further es (l + literalCount p.segments) (r + referenceCount p.segments)) :
    Further (e :: es) l r where
  segments := .char ',' :: .char ' ' :: (p.segments ++ rest.segments)
  tokens := .comma :: (p.tokens ++ rest.tokens)
  trees := p.tree :: rest.trees
  lexes := by
    intro text more pieces others hmore htext
    simp only [literalCount_char, literalCount_append, ← Nat.add_assoc, referenceCount_char,
      referenceCount_append] at hmore
    obtain ⟨hstops, _, hrest⟩ := rest.lexes hmore htext
    obtain ⟨_, hfirst⟩ := p.lexes hrest hstops
    have hblank := hfirst.marker (c := ' ') (.inl (by decide +kernel))
    have hcomma := hblank.bracket (c := ',') (by decide)
    simp only [List.flatMap_cons, List.cons_append, List.append_assoc]
    refine ⟨⟨?_, ?_⟩, _, hcomma⟩
    · rintro _ ⟨⟩
      decide
    · exact (by decide : some ',' ≠ some '(')
  build := by
    intro base last before
    have hplace := place_comma base last before true
    show (place true .comma _ (argumentStack base (last :: before))).bind _ = _
    rw [hplace]
    show buildBefore (some .closeParen) false (p.tokens ++ rest.tokens) _ = _
    rw [buildBefore_append, p.ends]
    have hfirst := p.build (holds_sequence ((last :: before).map enclosed)
      (emptyGroup :: base)).opens rest.name
    refine (congrArg (Except.bind · _) hfirst).trans ?_
    have hrest := rest.build base p.tree (last :: before)
    rw [List.reverse_cons, List.append_assoc]
    exact hrest
  name _ := rfl
  reading := by
    intro whole h
    obtain ⟨hfirst, hrest⟩ := (h.chars [',', ' ']).append
    exact .cons (p.isExpr hfirst) (rest.reading hrest)

end Further

/-- The characters between the parentheses of a call. -/
def argumentChars : List (Expr Float) → List Char
  | [] => []
  | e :: es => e.text.toList ++ es.flatMap fun e => ',' :: ' ' :: e.text.toList

theorem text_call (name : String) (es : List (Expr Float)) :
    (Expr.call name es).text.toList = name.toList ++ '(' :: (argumentChars es ++ [')']) := by
  have htexts : (Text.commaSeparated (es.map Expr.text)).toList = argumentChars es := by
    rw [Text.commaSeparated, String.toList_intercalate]
    cases es with
    | nil => rfl
    | cons e es =>
      rw [argumentChars]
      induction es generalizing e with
      | nil => simp
      | cons e' es ih =>
        rw [List.map_cons, List.map_cons, List.map_cons, List.map_cons, List.intercalate_cons_cons,
          ← List.map_cons, ← List.map_cons, ih]
        simp
  rw [Expr.text, Expr.textAll_eq_map]
  simp [String.toList_append, htexts]

/-- The arguments of a call, as `Further`. -/
structure Arguments (es : List (Expr Float)) (l r : Nat) where
  segments : List Segment
  tokens : List Token
  trees : List OperatorTree
  lexes {text : List Char} {more : List Segment} {pieces : List Piece} {others : List Token} :
    Lexes (l + literalCount segments) (r + referenceCount segments) text more pieces others →
      Segment.Stops text → ∃ pieces', Lexes l r (argumentChars es ++ text) (segments ++ more)
        pieces' (tokens ++ others)
  build (base : List OperatorTree) :
    buildBefore (some .closeParen) false tokens (node .root [] :: base) =
      .ok (argumentStack base trees.reverse)
  reading {whole : Lifted} : Extends whole l r (ofSegments segments) →
    List.Forall₂ (Reading.IsExpr whole) trees es

def Arguments.nil : Arguments [] l r where
  segments := []
  tokens := []
  trees := []
  lexes hmore _ := ⟨_, hmore⟩
  build _ := rfl
  reading _ := .nil

def Arguments.cons {es : List (Expr Float)} (p : Printed e l r)
    (rest : Further es (l + literalCount p.segments) (r + referenceCount p.segments)) :
    Arguments (e :: es) l r where
  segments := p.segments ++ rest.segments
  tokens := p.tokens ++ rest.tokens
  trees := p.tree :: rest.trees
  lexes := by
    intro text more pieces others hmore htext
    simp only [literalCount_append, ← Nat.add_assoc, referenceCount_append] at hmore
    obtain ⟨hstops, _, hrest⟩ := rest.lexes hmore htext
    obtain ⟨_, hfirst⟩ := p.lexes hrest hstops
    rw [argumentChars, List.append_assoc, List.append_assoc, List.append_assoc]
    exact ⟨_, hfirst⟩
  build := by
    intro base
    rw [buildBefore_append, p.ends, List.reverse_cons]
    refine (congrArg (Except.bind · _) (p.build (holds_group base).opens rest.name)).trans ?_
    exact rest.build base p.tree []
  reading := by
    intro whole h
    obtain ⟨hfirst, hrest⟩ := h.append
    exact .cons (p.isExpr hfirst) (rest.reading hrest)

/-- A call of a function that is no reference word, nor `if` or `xor`. -/
def call {name : String} {es : List (Expr Float)} (hname : IsIdentifier name)
    (hcall : Text.lowerChars name.toList ∉ ["if".toList, "xor".toList])
    (hword : Segment.referenceKind? name.toList = none) (as : Arguments es l r) :
    Printed (.call name es) l r where
  segments := .word name.toList :: .char '(' :: (as.segments ++ [.char ')'])
  tokens := .name name.toList :: .openParen :: (as.tokens ++ [.closeParen])
  sign := none
  core := node (.function name.toList) [node .root (argumentTrees as.trees.reverse)]
  inner := .call name es
  value := rfl
  lexes := by
    intro text more pieces others hmore htext
    have hcount : ∀ segments : List Segment,
        literalCount (.word name.toList :: segments) = literalCount segments ∧
          referenceCount (.word name.toList :: segments) = referenceCount segments :=
      fun segments => ⟨rfl, rfl⟩
    simp only [(hcount _).1, (hcount _).2, literalCount_char, literalCount_append,
      literalCount_nil, Nat.add_zero, referenceCount_char, referenceCount_append,
      referenceCount_nil] at hmore
    obtain ⟨_, harguments⟩ := as.lexes (hmore.bracket (c := ')') (by decide)) (stops_close text)
    have hopen := harguments.bracket (c := '(') (by decide)
    obtain ⟨c, rest, hchars, hc, hrest⟩ := hname.chars
    have hparen : ∀ d ∈ ('(' :: (argumentChars es ++ ')' :: text)).head?,
        Text.isNameChar d = false := by
      rintro _ ⟨⟩
      decide +kernel
    have hlexes := hopen.word (by rintro _ ⟨⟩; rfl) hc hrest hparen (.inl (hchars ▸ hword))
    rw [← hchars, hname.ofRun] at hlexes
    rw [text_call]
    simp only [List.cons_append, List.append_assoc, List.nil_append]
    exact ⟨_, hlexes⟩
  build := by
    intro around after haround _
    have hplace : place false (.name name.toList) (some .openParen) (around []) =
        .ok (around [node (.function name.toList) []]) :=
      haround.fill (node (.function name.toList) []) rfl
    have hfunction : Opens fun ts => around [node (.function name.toList) ts] :=
      haround.hole (isHole_function name.toList)
    have hlength := length_argumentStack (around [node (.function name.toList) []])
      as.trees.reverse
    have hpos := List.length_pos_iff.mpr hfunction.ne_nil
    refine (congrArg (Except.bind · _) hplace).trans ?_
    exact hfunction.group (as.build _) (by omega) (collapse_arguments _ _) after true
  ends := by
    show endsAfter true (.openParen :: as.tokens ++ [.closeParen]) = true
    exact endsAfter_close _ _
  isWhole := Nat.le_of_ble_eq_true rfl
  reading := by
    intro whole h
    have hinner : Extends whole l r
        (ofSegments (.char '(' :: (as.segments ++ [.char ')']))) := ⟨h.literals, h.references⟩
    have harguments := Reading.arguments_eq (as.reading (hinner.chars ['(']).append.1)
    simp only [List.mem_cons, List.not_mem_nil, or_false, not_or] at hcall
    have hof : Expr.ofCall name.toList es = .ok (.call name es) := by
      unfold Expr.ofCall
      simp only [beq_eq_false_iff_ne.mpr hcall.1, beq_eq_false_iff_ne.mpr hcall.2,
        Bool.false_eq_true, if_false, String.ofList_toList]
    refine Reading.isExpr_ofExpr ?_
    show Reading.ofExpr ((Reading.ofTree whole (node .root _)).arguments.bind _) = _
    rw [harguments]
    exact congrArg Reading.ofExpr hof

end Printed

/-! ## Reading it back -/

open Printed OperatorTree Lifted

/-- **Every printable expression has a written form that is read.** -/
theorem Expr.Printable.nonempty_printed {e : Expr Float} (h : e.Printable) (l r : Nat) :
    Nonempty (Printed e l r) := by
  induction h generalizing l r with
  | const hfinite hsign => exact ⟨.const hfinite hsign⟩
  | reference quantity hkind hname => exact ⟨.reference quantity hkind hname⟩
  | parameter hname => exact ⟨.parameter hname⟩
  | @unary op operand hop _ ih =>
    obtain ⟨p⟩ := ih l r
    cases op with
    | plus => exact absurd rfl hop
    | minus => exact ⟨p.unary .minus⟩
    | not => exact ⟨p.unary .not⟩
  | @binary op left right hxor hpow _ _ ihl ihr =>
    obtain ⟨pa⟩ := ihl l r
    obtain ⟨pb⟩ := ihr (l + literalCount pa.segments) (r + referenceCount pa.segments)
    by_cases hop : op = .pow
    · subst hop
      have hsign : pa.sign ≠ some .not := by
        intro hs
        have hvalue := pa.value
        rw [hs] at hvalue
        exact hpow rfl pa.inner hvalue
      exact ⟨power pa pb hsign⟩
    · cases hnode : op.node? with
      | none => cases op <;> first | exact absurd rfl hxor | cases hnode
      | some node => exact ⟨.binary hnode hop pa pb⟩
  | @call name es hname hcall hword _ ih =>
    have hfurther : ∀ es : List (Expr Float), (∀ e ∈ es, ∀ l r, Nonempty (Printed e l r)) →
        ∀ l r, Nonempty (Further es l r) := by
      intro es hes
      induction es with
      | nil => exact fun l r => ⟨.nil⟩
      | cons e rest ihrest =>
        intro l r
        obtain ⟨hfirst, hrest⟩ := List.forall_mem_cons.mp hes
        obtain ⟨p⟩ := hfirst l r
        obtain ⟨further⟩ := ihrest hrest _ _
        exact ⟨.cons p further⟩
    cases es with
    | nil => exact ⟨.call hname hcall hword .nil⟩
    | cons e rest =>
      obtain ⟨hfirst, hrest⟩ := List.forall_mem_cons.mp ih
      obtain ⟨p⟩ := hfirst l r
      obtain ⟨further⟩ := hfurther rest hrest _ _
      exact ⟨.call hname hcall hword (.cons p further)⟩

/--
**The written form of a printable expression is read as that expression**, unless it has more
numbers or references than can be counted.
-/
theorem Expr.parse_text {e : Expr Float} (h : e.Printable)
    (hlength : e.text.toList.length ≤ Lifted.maxIndex) : Expr.parse e.text = .ok e := by
  obtain ⟨p⟩ := h.nonempty_printed 0 0
  obtain ⟨_, hlexes⟩ := p.lexes (.nil _ _) Segment.stops_nil
  rw [List.append_nil, List.append_nil, List.append_nil] at hlexes
  have hextends := Extends.refl ((Segment.length_ofText_le hlexes.segments_eq).trans hlength)
  have htree : ofTokens p.tokens = .ok (node .root [p.tree]) := by
    have hbuild : build false p.tokens [emptyGroup] = .ok [node .root [p.tree]] :=
      (build_eq _ _ _).trans (p.build (holds_group []).opens fun _ => rfl)
    rw [ofTokens, hbuild]
    rfl
  have hparse := Expr.parse_eq_plain hlexes.segments_eq hlexes.ofText htree
  rw [String.ofList_toList] at hparse
  rw [hparse]
  exact (p.isExpr hextends).plain

/-- A power of a level in decibels and a comparison: all kinds of operands in one expression. -/
def Expr.nested : Expr Float :=
  .binary .pow (.unary .minus (.var ⟨"out", .voltage, .decibels⟩))
    (.binary .ge (.call "f" [.const 2.5, .unary .not (.var (.parameter "x")),
      .var ⟨"r1", .current, .value⟩]) (.const 10))

theorem isIdentifier_x : IsIdentifier "x" :=
  .of_letter 'x' [] (by decide +kernel) (by decide) (List.forall_mem_nil _) (by decide +kernel)

theorem Expr.parse_text_nested :
    Expr.nested.Printable ∧ Expr.parse "(-(vdb(out)) ^ (f(2.5, !(x), i(r1)) >= 10))" =
      .ok Expr.nested := by
  have hhalf : Literal.text (2.5 : Float) = "2.5" := by decide +kernel
  have hten : Literal.text (10 : Float) = "10" := by decide +kernel
  have htext : Expr.nested.text = "(-(vdb(out)) ^ (f(2.5, !(x), i(r1)) >= 10))" := by
    simp only [Expr.nested, Expr.text, Expr.textAll, hhalf, hten]
    decide +kernel
  have hfunction : IsIdentifier "f" :=
    .of_letter 'f' [] (by decide +kernel) (by decide) (List.forall_mem_nil _) (by decide +kernel)
  have hvoltage : Expr.Printable (.var ⟨"out", .voltage, .decibels⟩) :=
    .reference .decibels (by decide) ⟨by decide, by decide +kernel, by decide, by decide⟩
  have hcurrent : Expr.Printable (.var ⟨"r1", .current, .value⟩) :=
    .reference .value (by decide) ⟨by decide, by decide +kernel, by decide, by decide⟩
  have hnegated : Expr.Printable (.unary .not (.var (.parameter "x"))) :=
    .unary (by decide) (.parameter isIdentifier_x)
  have hnumbers : Expr.Printable (.const 2.5) ∧ Expr.Printable (.const 10) :=
    ⟨.const (by decide +kernel) (by decide +kernel),
      .const (by decide +kernel) (by decide +kernel)⟩
  have hcall : Expr.Printable (.call "f" [.const 2.5, .unary .not (.var (.parameter "x")),
      .var ⟨"r1", .current, .value⟩]) := by
    refine .call hfunction (by decide +kernel) (by decide +kernel) ?_
    simp only [List.forall_mem_cons, List.not_mem_nil, IsEmpty.forall_iff, implies_true, and_true]
    exact ⟨hnumbers.1, hnegated, hcurrent⟩
  have hprintable : Expr.nested.Printable := by
    refine .binary (by decide) ?_ (.unary (by decide) hvoltage)
      (.binary (by decide) (fun h => by cases h) hcall hnumbers.2)
    rintro - e he
    cases he
  refine ⟨hprintable, ?_⟩
  rw [← htext]
  exact Expr.parse_text hprintable (by rw [htext]; decide)

/-- The quantity of a parameter is not written, so it is not read back either. -/
theorem Expr.parse_text_quantity : IsIdentifier "x" ∧
    Expr.parse (Expr.var ⟨"x", .parameter, .real⟩ : Expr Float).text ≠
      .ok (.var ⟨"x", .parameter, .real⟩) := by
  refine ⟨isIdentifier_x, ?_⟩
  have hparse : Expr.parse "x" = .ok (.var (.parameter "x")) :=
    (Operand.ofName 'x' [] (by decide +kernel) (List.forall_mem_nil _) rfl (by decide)).parse_eq
  rw [Expr.text, Variable.text]
  intro h
  cases hparse.symm.trans h

end CircuitExpr
