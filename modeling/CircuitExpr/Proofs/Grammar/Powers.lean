import Mathlib
import CircuitExpr.Proofs.Grammar.Operands

/-!
# Rows of powers

A text `u₀ o₀ ^ u₁ o₁ ^ … ^ uₙ oₙ` of operands `oᵢ` with signs `uᵢ` in front, each `-` or `!`, is
read as a power that is grouped to the right. In the exponents all signs apply to their operands,
and so do the minus signs right in front of the base. But a `!` in front of the base, and all
signs before it, apply to the whole power, though signs are meant to bind more strongly than it:
`!x ^ 2` is `!(x ^ 2)` and not `(!x) ^ 2`.

## Main statements

* `Factor.parse_row` — the expression of a row of powers
* `Factor.parse_row_signs` — it is the power of the operands with their signs if, and only if, no
  `!` stands in front of the base
-/

namespace CircuitExpr

/-! ## Signs and blanks in front of an operand -/

namespace Sign

def ofChar? : Char → Option Sign
  | '-' => some .minus
  | '!' => some .not
  | _ => none

/-- The signs among signs and blanks. -/
def ofText (s : List Char) : List Sign := s.filterMap ofChar?

/-- A sign, or a blank between signs. -/
def IsPart (c : Char) : Prop := c = '-' ∨ c = '!' ∨ Text.isBlank c = true

theorem IsPart.isMarker {c : Char} (h : IsPart c) : IsMarker c := by
  rcases h with rfl | rfl | h
  · exact .inr (.inl rfl)
  · exact .inr (.inr rfl)
  · exact .inl (by rw [Text.isBreak, h, Bool.true_or])

theorem IsPart.ofMarker {c : Char} (h : IsPart c) :
    Token.ofMarker c = (ofChar? c).toList.map Sign.token := by
  rcases h with rfl | rfl | h
  · rfl
  · rfl
  · have hsign := Piece.isSign_of_isBlank h
    have hnone : ofChar? c = none := by
      unfold ofChar?
      split
      · exact absurd hsign (by decide)
      · exact absurd hsign (by decide)
      · rfl
    rw [Token.ofMarker, if_neg (by simp [hsign]), hnone]
    rfl

theorem flatMap_ofMarker {s : List Char} (h : ∀ c ∈ s, IsPart c) :
    s.flatMap Token.ofMarker = (ofText s).map Sign.token := by
  induction s with
  | nil => rfl
  | cons c rest ih =>
    obtain ⟨hc, hrest⟩ := List.forall_mem_cons.mp h
    rw [List.flatMap_cons, ih hrest, hc.ofMarker, ofText, ofText, List.filterMap_cons]
    cases ofChar? c <;> rfl

end Sign

/-! ## Factors -/

/-- An operand with signs in front, and with blanks around. -/
structure Factor where
  signs : List Char
  operand : Operand
  blanks : List Char
  signs_spec : ∀ c ∈ signs, Sign.IsPart c
  blanks_spec : ∀ c ∈ blanks, Text.isBlank c = true

namespace Factor

def text (f : Factor) : List Char := f.signs ++ f.operand.text ++ f.blanks

/-- The operand with all its signs. -/
def value (f : Factor) : Expr Float := Expr.signed (Sign.ofText f.signs) f.operand.value

/-- Factors behind the first one, each with its power sign. -/
def exponentText (rest : List Factor) : List Char := rest.flatMap fun f => '^' :: f.text

/-- The text of a row of powers. -/
def rowText (first : Factor) (rest : List Factor) : List Char := first.text ++ exponentText rest

def segments (f : Factor) : List Segment :=
  f.signs.map .char ++ (f.operand.segments ++ f.blanks.map .char)

def exponentSegments (rest : List Factor) : List Segment :=
  rest.flatMap fun f => .char '^' :: f.segments

/-- The factor with so many numbers and references before it. -/
def term (f : Factor) (l r : Nat) : OperatorTree.Term where
  signs := Sign.ofText f.signs
  tokens := f.operand.tokens.map (Token.rename (Lifted.shift l r))
  tree := f.operand.tree.rename (Lifted.shift l r)
  settles := f.operand.isOperand.settles (f.operand.shift_applied l r)

/-- Factors behind others, with so many numbers and references before them. -/
def terms : Nat → Nat → List Factor → List OperatorTree.Term
  | _, _, [] => []
  | l, r, f :: rest =>
    f.term l r :: terms (l + Lifted.literalCount f.operand.segments)
      (r + Lifted.referenceCount f.operand.segments) rest

variable {l r : Nat}

theorem exponentText_head (rest : List Factor) : ∀ c ∈ (exponentText rest).head?, c = '^' := by
  cases rest with
  | nil => exact nofun
  | cons f rest => rintro _ ⟨⟩; rfl

/-- Behind an operand come blanks and a power sign, or nothing. -/
theorem interrupts (f : Factor) (rest : List Factor) :
    Segment.Interrupts (f.blanks ++ exponentText rest) := by
  constructor
  · intro c hc
    cases hblanks : f.blanks with
    | nil =>
      rw [hblanks, List.nil_append] at hc
      rw [exponentText_head rest c hc]
      rfl
    | cons b more =>
      have hblank : Text.isBlank b = true := f.blanks_spec b (hblanks ▸ List.mem_cons_self)
      rw [hblanks] at hc
      cases hc
      rw [Text.isBreak, hblank, Bool.true_or]
  · have hpower : (exponentText rest).dropWhile Text.isBlank = exponentText rest := by
      cases rest <;> rfl
    rw [List.dropWhile_append_of_pos f.blanks_spec, hpower]
    intro hparen
    exact absurd (exponentText_head rest '(' hparen) (by decide)

/-! ## Tokens of a row -/

/-- A factor in front of other text. -/
theorem lexes_factor (f : Factor) {text : List Char} {segments : List Segment} {pieces : List Piece}
    {tokens : List Token}
    (h : Lexes (l + Lifted.literalCount f.operand.segments)
      (r + Lifted.referenceCount f.operand.segments) text segments pieces tokens)
    (htext : Segment.Interrupts (f.blanks ++ text)) :
    ∃ pieces', Lexes l r (f.text ++ text) (f.segments ++ segments) pieces'
      ((f.term l r).row ++ tokens) := by
  have hblanks : f.blanks.flatMap Token.ofMarker = [] := by
    refine List.flatMap_eq_nil_iff.mpr fun c hc => ?_
    rw [Token.ofMarker, if_neg (by simp [Piece.isSign_of_isBlank (f.blanks_spec c hc)])]
  have hmarkers : ∀ c ∈ f.blanks, IsMarker c := fun c hc =>
    Sign.IsPart.isMarker (.inr (.inr (f.blanks_spec c hc)))
  have hlexes := (((h.markers hmarkers).operand f.operand htext).markers
    fun c hc => (f.signs_spec c hc).isMarker)
  rw [hblanks, List.nil_append, Sign.flatMap_ofMarker f.signs_spec] at hlexes
  rw [Factor.text, Factor.segments, OperatorTree.Term.row]
  simp only [List.append_assoc]
  exact ⟨_, hlexes⟩

/-- **The tokens of a row of powers.** -/
theorem lexes_exponents (rest : List Factor) (l r : Nat) :
    ∃ pieces, Lexes l r (exponentText rest) (exponentSegments rest) pieces
      (OperatorTree.exponentTokens (terms l r rest)) := by
  induction rest generalizing l r with
  | nil => exact ⟨[], .nil l r⟩
  | cons f rest ih =>
    obtain ⟨pieces, hrest⟩ := ih (l + Lifted.literalCount f.operand.segments)
      (r + Lifted.referenceCount f.operand.segments)
    obtain ⟨pieces', hfactor⟩ := f.lexes_factor hrest (f.interrupts rest)
    exact ⟨_, hfactor.marker (c := '^') (.inl rfl)⟩

/-! ## What a row stands for -/

/-- An operand stands for the same in a row, and what follows is behind it in the tables. -/
theorem isRow_factor (f : Factor) {whole : Lifted} {more : List Segment}
    (h : Lifted.Extends whole l r (Lifted.ofSegments (f.segments ++ more))) :
    Reading.IsRow whole (f.term l r).tree [f.operand.value] ∧
      Lifted.Extends whole (l + Lifted.literalCount f.operand.segments)
        (r + Lifted.referenceCount f.operand.segments) (Lifted.ofSegments more) := by
  rw [Factor.segments, List.append_assoc, List.append_assoc] at h
  obtain ⟨hoperand, hmore⟩ := (h.chars f.signs).append
  exact ⟨f.operand.isRow hoperand, hmore.chars f.blanks⟩

theorem denotes_terms {whole : Lifted} {rest : List Factor}
    (h : Lifted.Extends whole l r (Lifted.ofSegments (exponentSegments rest))) :
    List.Forall₂
      (fun term w => Reading.Denotes whole (OperatorTree.signed term.signs term.tree) w)
      (terms l r rest) (rest.map value) := by
  induction rest generalizing l r with
  | nil => exact .nil
  | cons f rest ih =>
    obtain ⟨hrow, hrest⟩ := f.isRow_factor (h.chars ['^'])
    exact .cons (hrow.denotes.signed _) (ih hrest)

/--
What a row of powers is read as: the minus signs right in front of the base go to it, and the signs
up to the last `!` in front of the base go to the power.
-/
def rowValue (first : Factor) (rest : List Factor) : Expr Float :=
  Expr.signed ((Sign.ofText first.signs).rdropWhile (· = .minus))
    (Expr.powers
      (Expr.signed ((Sign.ofText first.signs).rtakeWhile (· = .minus)) first.operand.value)
      (rest.map value))

/-- The tokens of a row that is a text by itself. -/
theorem lexes_row (first : Factor) (rest : List Factor) :
    ∃ pieces, Lexes 0 0 (rowText first rest) (first.segments ++ exponentSegments rest) pieces
      ((first.term 0 0).row ++ OperatorTree.exponentTokens (terms
        (0 + Lifted.literalCount first.operand.segments)
        (0 + Lifted.referenceCount first.operand.segments) rest)) := by
  obtain ⟨_, hrest⟩ := lexes_exponents rest (0 + Lifted.literalCount first.operand.segments)
    (0 + Lifted.referenceCount first.operand.segments)
  exact first.lexes_factor hrest (first.interrupts rest)

/-- A row is read if the numbers and references in it can be counted. -/
theorem parse_row_of_segments (first : Factor) (rest : List Factor)
    (hlength : (first.segments ++ exponentSegments rest).length ≤ Lifted.maxIndex) :
    Expr.parse (String.ofList (rowText first rest)) = .ok (rowValue first rest) := by
  obtain ⟨_, hrow⟩ := lexes_row first rest
  obtain ⟨hfirst, hterms⟩ := first.isRow_factor (Lifted.Extends.refl hlength)
  have hsigned := (hfirst.powerTree (denotes_terms hterms)).signed
  have htree := OperatorTree.ofTokens_row (first.term 0 0) (terms
    (0 + Lifted.literalCount first.operand.segments)
    (0 + Lifted.referenceCount first.operand.segments) rest)
  rw [OperatorTree.under_singleton] at htree
  exact (Expr.parse_eq_plain hrow.segments_eq hrow.ofText htree).trans
    (Reading.plain_signed_row _ hsigned)

/-- **The expression of a row of powers.** -/
theorem parse_row (first : Factor) (rest : List Factor)
    (hlength : (rowText first rest).length ≤ Lifted.maxIndex) :
    Expr.parse (String.ofList (rowText first rest)) = .ok (rowValue first rest) := by
  obtain ⟨_, hrow⟩ := lexes_row first rest
  exact parse_row_of_segments first rest
    ((Segment.length_ofText_le hrow.segments_eq).trans hlength)

/-- Only a `!` in front of the base makes a row something other than the power of its factors. -/
theorem rowValue_eq_iff (first second : Factor) (rest : List Factor) :
    rowValue first (second :: rest) = Expr.powers first.value ((second :: rest).map value) ↔
      .not ∉ Sign.ofText first.signs := by
  have hall : .not ∉ Sign.ofText first.signs ↔
      ∀ s ∈ Sign.ofText first.signs, decide (s = .minus) = true := by
    constructor
    · intro h s hs
      cases s with
      | minus => rfl
      | not => exact absurd hs h
    · intro h hnot
      exact absurd (h .not hnot) (by decide)
  rw [hall, rowValue]
  constructor
  · intro h
    refine List.rdropWhile_eq_nil_iff.mp ?_
    cases hsigns : (Sign.ofText first.signs).rdropWhile (· = .minus) with
    | nil => rfl
    | cons s more =>
      rw [hsigns] at h
      exact nomatch h
  · intro h
    rw [List.rdropWhile_eq_nil_iff.mpr h, List.rtakeWhile_eq_self_iff.mpr h]
    rfl

/--
**Signs bind more strongly than powers, apart from `!` in front of the base.** A row of powers is
always read, and it is the power of its operands with their signs, grouped to the right, if and
only if there is no `!` among the signs of the first operand.
-/
theorem parse_row_signs (first second : Factor) (rest : List Factor)
    (hlength : (rowText first (second :: rest)).length ≤ Lifted.maxIndex) :
    Expr.parse (String.ofList (rowText first (second :: rest))) =
        .ok (rowValue first (second :: rest)) ∧
      (rowValue first (second :: rest) =
          Expr.powers first.value ((second :: rest).map value) ↔
        .not ∉ Sign.ofText first.signs) :=
  ⟨parse_row first (second :: rest) hlength, rowValue_eq_iff first second rest⟩

/-- The factor `-x` with a blank behind it. -/
def negatedName : Factor where
  signs := ['-']
  operand := .ofName 'x' [] (by decide +kernel) nofun rfl (by decide)
  blanks := [' ']
  signs_spec := List.forall_mem_singleton.mpr (.inl rfl)
  blanks_spec := List.forall_mem_singleton.mpr rfl

theorem ofText_voltage : Segment.ofText ['v', '(', '1', ')'] =
    .ok [.reference ['v', '(', '1', ')'] (.var ⟨"1", .voltage, .value⟩)] := by
  have hnext : Segment.next 'v' ['(', '1', ')'] =
      .ok (.reference ['v', '(', '1', ')'] (.var ⟨"1", .voltage, .value⟩), []) := rfl
  rw [Segment.ofText_cons hnext, Segment.ofText]
  rfl

/-- The factor `!v(1)` with blanks around the sign. -/
def negatedReference : Factor where
  signs := [' ', '!', ' ']
  operand := .ofReference ofText_voltage
  blanks := []
  signs_spec := List.forall_mem_cons.mpr ⟨.inr (.inr rfl),
    List.forall_mem_cons.mpr ⟨.inr (.inl rfl), List.forall_mem_singleton.mpr (.inr (.inr rfl))⟩⟩
  blanks_spec := nofun

/-- What `2k` stands for. -/
def twoThousand : Float := Decimal.nearest 2 0 * Number.multiplier ['k']

theorem ofText_twoThousand : Segment.ofText ['2', 'k'] = .ok [.literal ['2', 'k'] twoThousand] := by
  have hnext : Segment.next '2' ['k'] = .ok (.literal ['2', 'k'] twoThousand, []) := rfl
  rw [Segment.ofText_cons hnext, Segment.ofText]
  rfl

/-- The factor `-2k`. -/
def negatedNumber : Factor where
  signs := ['-']
  operand := .ofLiteral ofText_twoThousand
  blanks := []
  signs_spec := List.forall_mem_singleton.mpr (.inl rfl)
  blanks_spec := nofun

/-- Signs in all places: `-x ^ !v(1) ^ -2k`. -/
theorem parse_row_signs_sample :
    Expr.parse "-x ^ ! v(1)^-2k" = .ok (.binary .pow (.unary .minus (.var (.parameter "x")))
      (.binary .pow (.unary .not (.var ⟨"1", .voltage, .value⟩))
        (.unary .minus (.const twoThousand)))) := by
  have htext : String.ofList (rowText negatedName [negatedReference, negatedNumber]) =
      "-x ^ ! v(1)^-2k" := by decide +kernel
  obtain ⟨hparse, hvalue⟩ :=
    parse_row_signs negatedName negatedReference [negatedNumber] (by decide)
  rw [htext, hvalue.mpr (by decide)] at hparse
  exact hparse

def isPower : Expr Float → Bool
  | .binary .pow _ _ => true
  | _ => false

/-- A `!` in front of the base is not applied to it: `!x^2` is no power of `!x`. -/
theorem parse_not_power : Expr.parse "!x^2" ≠
    .ok (.binary .pow (.unary .not (.var (.parameter "x"))) (.const 2)) := by
  have hpower : (Expr.parse "!x^2").toOption.all isPower = false := by decide +kernel
  intro h
  rw [h] at hpower
  cases hpower

end Factor

end CircuitExpr
