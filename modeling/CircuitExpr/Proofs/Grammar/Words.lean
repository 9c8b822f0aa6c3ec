import Mathlib
import CircuitExpr.Decimal.Write
import CircuitExpr.Proofs.Grammar.Operands
import CircuitExpr.Proofs.Numeric.Fractions

/-!
# Words, numbers and signs of a written form

In a written form an operand ends at a blank, at a closing parenthesis or at a comma, and at a
blank only an operator can follow. So names, numbers and references are cut out of the text as
they were written, and each of them is one token.

## Main statements

* `Segment.Stops` — what stands behind an operand of a written form
* `Decimal.display_spec` — finite numbers without sign are written with digits and a point
* `Lexes.word`, `Lexes.number`, `Lexes.reference` — operands in front of other text
* `Lexes.bracket`, `Lexes.operator` — the signs around operands
-/

namespace CircuitExpr

/-! ## The written form of a number -/

namespace Decimal

theorem isDigit_of_mem_trimZeros {digits : List Char} (h : ∀ c ∈ digits, c.isDigit = true) :
    ∀ c ∈ trimZeros digits, c.isDigit = true := by
  intro c hc
  have hmem := (List.dropWhile_sublist _).mem (List.mem_reverse.mp hc)
  exact h c (List.mem_reverse.mp hmem)

/-- The shortest decimal consists of digits. -/
theorem isDigit_of_mem_shortest (b : Binary64) : ∀ c ∈ (shortest b).digits, c.isDigit = true := by
  have hunits : ∀ n k, ∀ c ∈ (ofUnits n k).digits, c.isDigit = true := fun n k =>
    isDigit_of_mem_trimZeros fun c hc => Lifted.isDigit_of_mem_toDigits hc
  have hdecimal : ∀ (i : Interval) (first : Int) (count : Nat) (d : Decimal),
      i.decimal? first count = some d → ∀ c ∈ d.digits, c.isDigit = true := by
    intro i first count d h
    unfold Interval.decimal? at h
    simp only at h
    split at h
    · cases h
      exact hunits _ _
    · split at h
      · cases h
        exact hunits _ _
      · cases h
  unfold shortest
  simp only
  cases hfound : (List.range 17).findSome? fun n =>
      (Interval.of b).decimal?
        (place (Interval.of b).value (Interval.of b).denominator) (n + 1) with
  | some d =>
    obtain ⟨n, -, hn⟩ := List.exists_of_findSome?_eq_some hfound
    exact hdecimal _ _ _ d hn
  | none => exact fun c hc => Lifted.isDigit_of_mem_toDigits (List.mem_of_mem_take hc)

/-- Digits and points, the first of them a digit. -/
structure IsPositional (cs : List Char) : Prop where
  mantissa : ∀ c ∈ cs, Number.isMantissaChar c = true
  head : ∃ c rest, cs = c :: rest ∧ c.isDigit = true

theorem isPositional_of_digits {cs : List Char} (hcs : ∀ c ∈ cs, c.isDigit = true)
    (hne : cs ≠ []) : IsPositional cs := by
  constructor
  · intro c hc
    rw [Number.isMantissaChar, hcs c hc, Bool.true_or]
  · cases cs with
    | nil => exact absurd rfl hne
    | cons c rest => exact ⟨c, rest, rfl, hcs c List.mem_cons_self⟩

/-- A point and digits behind a number. -/
theorem IsPositional.point {cs fraction : List Char} (h : IsPositional cs)
    (hfraction : ∀ c ∈ fraction, c.isDigit = true) : IsPositional (cs ++ '.' :: fraction) := by
  obtain ⟨c, rest, rfl, hc⟩ := h.head
  constructor
  · intro d hd
    rcases List.mem_append.mp hd with hd | hd
    · exact h.mantissa d hd
    · rcases List.mem_cons.mp hd with rfl | hd
      · rfl
      · rw [Number.isMantissaChar, hfraction d hd, Bool.true_or]
  · exact ⟨c, _, rfl, hc⟩

theorem isDigit_of_mem_zeros {n : Nat} : ∀ c ∈ zeros n, c.isDigit = true := by
  intro c hc
  rw [List.eq_of_mem_replicate hc]
  rfl

theorem isPositional_positional {d : Decimal} (hd : ∀ c ∈ d.digits, c.isDigit = true) :
    IsPositional (positional d) := by
  have hzeros : ∀ n, ∀ c ∈ zeros n ++ d.digits, c.isDigit = true := by
    intro n c hc
    rcases List.mem_append.mp hc with hc | hc
    · exact isDigit_of_mem_zeros c hc
    · exact hd c hc
  unfold positional
  by_cases hpoint : d.point ≤ 0
  · rw [if_pos hpoint]
    have hzero := isPositional_of_digits (List.forall_mem_singleton.mpr rfl) (List.cons_ne_nil '0' [])
    exact hzero.point (hzeros _)
  · rw [if_neg hpoint]
    have hunits : d.point.toNat ≠ 0 := by omega
    simp only
    split
    · refine isPositional_of_digits ?_ ?_
      · intro c hc
        rcases List.mem_append.mp hc with hc | hc
        · exact hd c hc
        · exact isDigit_of_mem_zeros c hc
      · intro hnil
        obtain ⟨hdigits, hzero⟩ := List.append_eq_nil_iff.mp hnil
        rw [hdigits] at hzero
        exact hunits (List.replicate_eq_nil_iff _ |>.mp hzero)
    · next hlength =>
      have htake : d.digits.take d.point.toNat ≠ [] := by
        intro hnil
        rcases List.take_eq_nil_iff.mp hnil with hzero | hdigits
        · exact hunits hzero
        · rw [hdigits] at hlength
          exact hlength (Nat.zero_le _)
      exact (isPositional_of_digits (fun c hc => hd c (List.mem_of_mem_take hc)) htake).point
        fun c hc => hd c (List.mem_of_mem_drop hc)

/-- **Finite numbers without sign are written with digits and a point.** -/
theorem display_spec {x : Float} (hfinite : x.isFinite = true)
    (hsign : Binary64.signBit x = false) : IsPositional (display x).toList := by
  have hnan : x.isNaN = false ∧ x.isInf = false := by
    have hfinite' : (Binary64.unpacked x).isFinite = true := hfinite
    constructor
    · show (Binary64.unpacked x).isNaN = false
      cases hx : Binary64.unpacked x <;> rw [hx] at hfinite' <;> first | rfl | cases hfinite'
    · show (Binary64.unpacked x).isInf = false
      cases hx : Binary64.unpacked x <;> rw [hx] at hfinite' <;> first | rfl | cases hfinite'
  have hnegative := (Binary64.negative_ofFloat x).trans hsign
  unfold display
  simp only [hnan.1, hnan.2, hnegative, sign, Bool.false_eq_true, if_false, List.nil_append,
    String.toList_ofList]
  split
  · exact isPositional_of_digits (List.forall_mem_singleton.mpr rfl) (List.cons_ne_nil '0' [])
  · exact isPositional_positional (isDigit_of_mem_shortest _)

end Decimal

/-! ## Segments in front of other text -/

namespace Segment

/--
What stands behind an operand of a written form: nothing, or a blank, a closing parenthesis or a
comma; and no opening parenthesis behind blanks.
-/
structure Stops (t : List Char) : Prop where
  head : ∀ c ∈ t.head?, c ∈ [' ', ')', ',']
  paren : (t.dropWhile Text.isBlank).head? ≠ some '('

variable {t : List Char} {c : Char} {rest : List Char}

theorem stops_nil : Stops [] := ⟨nofun, nofun⟩

theorem Stops.not (ht : Stops t) {p : Char → Bool}
    (hp : p ' ' = false ∧ p ')' = false ∧ p ',' = false) : ∀ c ∈ t.head?, p c = false := by
  intro c hc
  have hmem := ht.head c hc
  simp only [List.mem_cons, List.not_mem_nil, or_false] at hmem
  rcases hmem with rfl | rfl | rfl
  · exact hp.1
  · exact hp.2.1
  · exact hp.2.2

/-- A word that is no reference ends where its characters end. -/
theorem ofText_word (hc : Text.isNameStart c = true)
    (hrest : ∀ d ∈ rest, Text.isNameChar d = true)
    (ht : ∀ d ∈ t.head?, Text.isNameChar d = false)
    (hword : referenceKind? (c :: rest) = none ∨ (t.dropWhile Text.isBlank).head? ≠ some '(') :
    ofText (c :: rest ++ t) = (ofText t).map (.word (c :: rest) :: ·) :=
  ofText_of_isCut (.word hc hrest ht (hword.imp_right (mt opensParen_iff.mp)))

/-- Digits and points are not letters. -/
theorem isNameStart_of_isDigit (h : c.isDigit = true) : Text.isNameStart c = false := by
  have hall : ∀ n < 58, 48 ≤ n → Text.isNameStart (Char.ofNat n) = false := by decide +kernel
  have hcode := Char.isDigit_iff_toNat.mp h
  have hc := hall c.toNat (Nat.lt_succ_of_le hcode.2) hcode.1
  rwa [Char.ofNat_toNat] at hc

/-- A number without letters ends where its digits end, and is multiplied by nothing. -/
theorem ofText_number {cs : List Char} (hcs : Decimal.IsPositional cs) {x : Float}
    (hx : Decimal.read? cs = some x) (ht : Stops t) :
    ofText (cs ++ t) = (ofText t).map (.literal cs x :: ·) := by
  obtain ⟨c, rest, rfl, hc⟩ := hcs.head
  have hcut : Number.IsCut (c :: rest) [] [] t := by
    refine ⟨hcs.mantissa, ht.not (by decide +kernel), .inr ⟨rfl, ?_⟩, List.forall_mem_nil _,
      ht.not (by decide +kernel)⟩
    -- no sign that ends an operand begins an exponent
    rintro _ ⟨e, sign, digits, rfl, he, -⟩ ⟨more, rfl⟩
    have hletter := ht.not (p := fun d => d == 'e' || d == 'E') (by decide) e rfl
    rcases he with rfl | rfl <;> cases hletter
  have hvalue : Number.value (c :: rest) [] = .ok x := by
    have hone : Number.multiplier [] = 1 := rfl
    rw [Number.value, hx]
    show Except.ok (x * Number.multiplier []) = _
    rw [hone, Binary64.mul_one_eq]
  have hopens : opensNumber c (rest ++ t) = true := by rw [opensNumber, hc, Bool.true_or]
  have hsource : c :: rest ++ [] ++ [] = c :: rest := by rw [List.append_nil, List.append_nil]
  rw [← List.append_nil (c :: rest)] at hvalue
  have hliteral := IsCut.literal hsource (isNameStart_of_isDigit hc) hopens hcut hvalue
  rw [hsource] at hliteral
  exact ofText_of_isCut hliteral

/-! ## References -/

/-- The word in front of the parentheses of a reference. -/
def referenceWord (kind : VariableKind) (quantity : Quantity) : List Char :=
  (if kind = .voltage then 'v' else 'i') :: quantity.suffix.toList

theorem referenceWord_spec {kind : VariableKind} (hkind : kind ≠ .parameter)
    (quantity : Quantity) :
    referenceKind? (referenceWord kind quantity) = some (kind, quantity) ∧
      (∀ c ∈ (referenceWord kind quantity).head?, Text.isNameStart c = true) ∧
      ∀ c ∈ referenceWord kind quantity, Text.isNameChar c = true := by
  have hchars : ∀ {cs : List Char}, cs.all Text.isNameChar = true →
      ∀ c ∈ cs, Text.isNameChar c = true := fun h => List.all_eq_true.mp h
  cases kind with
  | parameter => exact absurd rfl hkind
  | voltage | current =>
    cases quantity <;> exact ⟨rfl, by rintro _ ⟨⟩; decide +kernel, hchars (by decide +kernel)⟩

theorem splitCommas_of_not_mem {name : List Char} (h : ',' ∉ name) : splitCommas name = [name] := by
  induction name with
  | nil => rfl
  | cons c rest ih =>
    rw [List.mem_cons, not_or] at h
    obtain ⟨hc, hrest⟩ := h
    have hcomma : (c == ',') = false := beq_eq_false_iff_ne.mpr (Ne.symm hc)
    simp [splitCommas, hcomma, ih hrest]

/-- A name that can be written between the parentheses of a reference. -/
structure IsNode (name : List Char) : Prop where
  ne_nil : name ≠ []
  trim : Text.trim name = name
  comma : ',' ∉ name
  paren : ')' ∉ name

theorem referenceExpr_node {name : List Char} (h : IsNode name) (kind : VariableKind)
    (quantity : Quantity) :
    referenceExpr kind quantity name = .ok (.var ⟨String.ofList name, kind, quantity⟩) := by
  unfold referenceExpr
  rw [splitCommas_of_not_mem h.comma, List.map_singleton, h.trim]
  simp [h.ne_nil]

/-- The characters of a reference. -/
def referenceChars (kind : VariableKind) (quantity : Quantity) (name : List Char) : List Char :=
  referenceWord kind quantity ++ '(' :: name ++ [')']

/-- A reference ends at its closing parenthesis. -/
theorem ofText_reference {kind : VariableKind} (hkind : kind ≠ .parameter) (quantity : Quantity)
    {name : List Char} (hname : IsNode name) (t : List Char) :
    ofText (referenceChars kind quantity name ++ t) =
      (ofText t).map (.reference (referenceChars kind quantity name)
        (.var ⟨String.ofList name, kind, quantity⟩) :: ·) := by
  obtain ⟨hword, hstart, hchars⟩ := referenceWord_spec hkind quantity
  cases hcs : referenceWord kind quantity with
  | nil => cases hcs
  | cons c rest =>
    rw [hcs] at hword hstart hchars
    have hcut : (Segment.reference (c :: rest ++ [] ++ '(' :: name ++ [')'])
        (.var ⟨String.ofList name, kind, quantity⟩)).IsCut t :=
      .reference (hstart c rfl) (fun d hd => hchars d (List.mem_cons_of_mem c hd)) hword
        (List.forall_mem_nil _) hname.paren (referenceExpr_node hname kind quantity)
    rw [List.append_nil] at hcut
    rw [referenceChars, hcs]
    exact ofText_of_isCut hcut

/-! ## Signs -/

/-- Signs and blanks are segments by themselves. -/
theorem ofText_signs {cs : List Char} (h : ∀ c ∈ cs, c = ' ' ∨ Piece.isSign c = true)
    (t : List Char) : ofText (cs ++ t) = (ofText t).map (cs.map .char ++ ·) := by
  have hall : (' ' :: "+-*/%^(),;=!><&|".toList).all (fun c =>
      !Text.isNameStart c && (!c.isDigit && !(c == '.'))) = true := by decide +kernel
  induction cs with
  | nil => rw [List.nil_append, List.map_nil, map_nil_append]
  | cons c rest ih =>
    obtain ⟨hc, hrest⟩ := List.forall_mem_cons.mp h
    have hmem : c ∈ ' ' :: "+-*/%^(),;=!><&|".toList := by
      rcases hc with rfl | hc
      · exact List.mem_cons_self
      · exact List.mem_cons_of_mem _ (List.contains_iff_mem.mp hc)
    have hspec := List.all_eq_true.mp hall c hmem
    rw [Bool.and_eq_true, Bool.and_eq_true, Bool.not_eq_true', Bool.not_eq_true',
      Bool.not_eq_true'] at hspec
    obtain ⟨hstart, hdigit, hpoint⟩ := hspec
    have hopens : opensNumber c (rest ++ t) = false := by
      rw [opensNumber, hdigit, hpoint, Bool.false_and, Bool.or_self]
    have hchar := ofText_of_isCut (.char hstart hopens)
    rw [ih hrest, map_cons_append] at hchar
    exact hchar

end Segment

/-! ## Tokens in front of other text -/

namespace Lexes

open Segment

variable {l r : Nat} {text cs : List Char} {segments : List Segment} {pieces : List Piece}
  {tokens : List Token}

/-- Behind an operand of a written form comes a sign or a blank. -/
theorem head_of_stops (h : Lexes l r text segments pieces tokens) (htext : Stops text) :
    ∀ p ∈ pieces.head?, p.isRun = false := by
  cases text with
  | nil =>
    have hsegments := h.segments_eq
    rw [Segment.ofText] at hsegments
    cases hsegments
    have hpieces := h.pieces_eq
    cases hpieces
    intro p hp
    cases hp
  | cons c rest =>
    have hspec : (c = ' ' ∨ Piece.isSign c = true) ∧ c ≠ '"' ∧ c ≠ '/' ∧
        (Piece.ofChar c).isRun = false := by
      have hc := htext.head c rfl
      simp only [List.mem_cons, List.not_mem_nil, or_false] at hc
      rcases hc with rfl | rfl | rfl
      · exact ⟨.inl rfl, by decide, by decide, rfl⟩
      · exact ⟨.inr rfl, by decide, by decide, rfl⟩
      · exact ⟨.inr rfl, by decide, by decide, rfl⟩
    obtain ⟨hsign, hquote, hslash, hrun⟩ := hspec
    have hsegments := h.segments_eq
    have hsigns := ofText_signs (List.forall_mem_singleton.mpr hsign) rest
    rw [List.singleton_append] at hsigns
    rw [hsigns] at hsegments
    obtain ⟨more, -, rfl⟩ := map_eq_ok hsegments
    have hpieces := h.pieces_eq
    rw [List.map_singleton, List.singleton_append, Lifted.write,
      Piece.scan_plain_cons hquote (fun heq => absurd heq hslash)] at hpieces
    obtain ⟨pieces, -, rfl⟩ := map_eq_ok hpieces
    rintro _ ⟨⟩
    exact hrun

/-- A run of characters in front of a sign or a blank is one token. -/
theorem run (h : Lexes l r text segments pieces tokens)
    (hpieces : ∀ p ∈ pieces.head?, p.isRun = false) (hne : cs ≠ [])
    (hcs : ∀ c ∈ cs, isOrdinary c = true) :
    Piece.scan .plain (cs ++ Lifted.write l r segments) = .ok (cs.map Piece.ofChar ++ pieces) ∧
      Token.ofPiecesFrom 0 (Piece.join (cs.map Piece.ofChar ++ pieces)) =
        .ok (.ofRun cs :: tokens) ∧
      Token.equalsNext (Piece.join (cs.map Piece.ofChar ++ pieces)) = false := by
  have hplain : ∀ c ∈ cs, c ≠ '"' ∧ c ≠ '/' := fun c hc =>
    ⟨Mark.ne_of_isOrdinary (hcs c hc) (by decide +kernel),
      Mark.ne_of_isOrdinary (hcs c hc) (by decide +kernel)⟩
  have hjoin : Piece.join (cs.map Piece.ofChar ++ pieces) = .run cs :: Piece.join pieces := by
    rw [Piece.join_ordinary hne hcs, Piece.runInto_of_not_run (Piece.join_head hpieces)]
  refine ⟨?_, ?_, ?_⟩
  · rw [Piece.scan_plain_append hplain, h.pieces_eq]
    rfl
  · rw [hjoin, Token.ofPiecesFrom, h.tokens_eq]
    rfl
  · rw [hjoin]
    rfl

/-- A word in front of other text. -/
theorem word (h : Lexes l r text segments pieces tokens)
    (hpieces : ∀ p ∈ pieces.head?, p.isRun = false) {c : Char} {rest : List Char}
    (hc : Text.isNameStart c = true) (hrest : ∀ d ∈ rest, Text.isNameChar d = true)
    (htext : ∀ d ∈ text.head?, Text.isNameChar d = false)
    (hword : referenceKind? (c :: rest) = none ∨ (text.dropWhile Text.isBlank).head? ≠ some '(') :
    Lexes l r (c :: rest ++ text) (.word (c :: rest) :: segments)
      ((c :: rest).map Piece.ofChar ++ pieces) (.ofRun (c :: rest) :: tokens) := by
  obtain ⟨hscan, htokens, hequals⟩ := h.run hpieces (List.cons_ne_nil c rest)
    (Operand.isOrdinary_name hc hrest)
  refine ⟨?_, hscan, htokens, hequals⟩
  rw [ofText_word hc hrest htext hword, h.segments_eq]
  rfl

/-- A number in front of other text. -/
theorem number (h : Lexes (l + 1) r text segments pieces tokens) (htext : Stops text)
    (hcs : Decimal.IsPositional cs) {x : Float} (hx : Decimal.read? cs = some x) :
    Lexes l r (cs ++ text) (.literal cs x :: segments)
      ((Lifted.placeholder Lifted.literalStem l).map Piece.ofChar ++ pieces)
      (.name (Lifted.placeholder Lifted.literalStem l) :: tokens) := by
  obtain ⟨hscan, htokens, hequals⟩ := h.run (h.head_of_stops htext)
    (Mark.render_ne_nil 0 0 (.literal l)) fun c hc =>
      Mark.isOrdinary_of_mem_render (m := .literal l) (fun _ => by simp) hc
  rw [Mark.render, Nat.zero_add] at hscan htokens hequals
  rw [Token.ofRun_placeholder (.inl rfl)] at htokens
  refine ⟨?_, hscan, htokens, hequals⟩
  rw [ofText_number hcs hx htext, h.segments_eq]
  rfl

/-- A reference in front of other text. -/
theorem reference (h : Lexes l (r + 1) text segments pieces tokens) (htext : Stops text)
    {kind : VariableKind} (hkind : kind ≠ .parameter) (quantity : Quantity) {name : List Char}
    (hname : IsNode name) :
    Lexes l r (referenceChars kind quantity name ++ text)
      (.reference (referenceChars kind quantity name)
        (.var ⟨String.ofList name, kind, quantity⟩) :: segments)
      ((Lifted.placeholder Lifted.referenceStem r).map Piece.ofChar ++ pieces)
      (.name (Lifted.placeholder Lifted.referenceStem r) :: tokens) := by
  obtain ⟨hscan, htokens, hequals⟩ := h.run (h.head_of_stops htext)
    (Mark.render_ne_nil 0 0 (.reference r)) fun c hc =>
      Mark.isOrdinary_of_mem_render (m := .reference r) (fun _ => by simp) hc
  rw [Mark.render, Nat.zero_add] at hscan htokens hequals
  rw [Token.ofRun_placeholder (.inr rfl)] at htokens
  refine ⟨?_, hscan, htokens, hequals⟩
  rw [ofText_reference hkind quantity hname, h.segments_eq]
  rfl

/-- A parenthesis or a comma in front of other text. -/
theorem bracket (h : Lexes l r text segments pieces tokens) {c : Char} (hc : c ∈ ['(', ')', ',']) :
    Lexes l r (c :: text) (.char c :: segments) (.sign c :: pieces) (.ofSign c :: tokens) := by
  have hspec : Piece.isSign c = true ∧ c ≠ '"' ∧ c ≠ '/' ∧ c ≠ '=' ∧
      (c == '&' || c == '|') = false ∧ Token.withEquals? c = none := by
    simp only [List.mem_cons, List.not_mem_nil, or_false] at hc
    rcases hc with rfl | rfl | rfl <;>
      exact ⟨rfl, by decide, by decide, by decide, rfl, rfl⟩
  obtain ⟨hsign, hquote, hslash, hequal, hsingle, hwith⟩ := hspec
  have hglue : Token.glue c (Piece.join pieces) = .ok (.ofSign c, 0) := by
    unfold Token.glue
    rw [hsingle, hwith, h.equals]
    rfl
  constructor
  · have hsegments := ofText_signs (List.forall_mem_singleton.mpr (.inr hsign)) text
    rw [List.singleton_append] at hsegments
    rw [hsegments, h.segments_eq]
    rfl
  · rw [Lifted.write, Piece.scan_plain_cons hquote (fun heq => absurd heq hslash), h.pieces_eq,
      Piece.ofChar, if_pos hsign]
    rfl
  · rw [Piece.join_of_not_run rfl, Token.ofPiecesFrom, hglue]
    simp only
    rw [h.tokens_eq]
    rfl
  · rw [Piece.join_of_not_run rfl]
    exact beq_eq_false_iff_ne.mpr hequal

end Lexes

/-! ## Operators between operands -/

namespace BinaryOp

/-- The token of an operator and its node in an operator tree; `^^` is no operator of texts. -/
def node? : BinaryOp → Option (Token × Operator)
  | add => some (.plus, .add)
  | sub => some (.minus, .sub)
  | mul => some (.times, .mul)
  | div => some (.divide, .div)
  | mod => some (.modulo, .mod)
  | lt => some (.less, .lt)
  | gt => some (.greater, .gt)
  | le => some (.lessOrEqual, .le)
  | ge => some (.greaterOrEqual, .ge)
  | eq => some (.equal, .eq)
  | ne => some (.notEqual, .ne)
  | and => some (.and, .and)
  | or => some (.or, .or)
  | xor => none
  | pow => some (.power, .exp)

/-- The operator with a blank on either side. -/
def padded (op : BinaryOp) : List Char := ' ' :: op.symbol.toList ++ [' ']

theorem stops_padded (op : BinaryOp) (t : List Char) :
    Segment.Stops (op.padded ++ t) := by
  constructor
  · rintro _ ⟨⟩
    exact List.mem_cons_self
  · have hsymbol : ((op.padded ++ t).dropWhile Text.isBlank).head? = op.symbol.toList.head? := by
      cases op <;> rfl
    rw [hsymbol]
    cases op <;> decide

end BinaryOp

/-- An operator and the blanks around it in front of other text. -/
theorem Lexes.operator {l r : Nat} {text : List Char} {segments : List Segment}
    {pieces : List Piece} {tokens : List Token} (h : Lexes l r text segments pieces tokens)
    {op : BinaryOp} {token : Token} {operator : Operator}
    (hop : op.node? = some (token, operator)) :
    Lexes l r (op.padded ++ text) (op.padded.map .char ++ segments)
      (op.padded.map Piece.ofChar ++ pieces) (token :: tokens) := by
  have hsigns : ∀ c ∈ op.padded, c = ' ' ∨ Piece.isSign c = true := by
    have hall : op.padded.all (fun c => c == ' ' || Piece.isSign c) = true := by cases op <;> rfl
    intro c hc
    have hspec := List.all_eq_true.mp hall c hc
    rwa [Bool.or_eq_true, beq_iff_eq] at hspec
  have hwrite : Lifted.write l r (op.padded.map .char ++ segments) =
      op.padded ++ Lifted.write l r segments := by
    cases op <;> rfl
  have hscan : ∀ s, Piece.scan .plain (op.padded ++ s) =
      (Piece.scan .plain s).map (op.padded.map Piece.ofChar ++ ·) := by
    intro s
    by_cases hdiv : op = .div
    · subst hdiv
      show Piece.scan .plain (' ' :: '/' :: ' ' :: s) = _
      rw [Piece.scan_plain_cons (by decide) (by simp), Piece.scan_plain_cons (by decide) (by simp),
        Piece.scan_plain_cons (by decide) (by simp)]
      cases Piece.scan .plain s <;> rfl
    · have hall : op.padded.all (fun c => c != '"' && c != '/') = true := by
        cases op <;> first | exact absurd rfl hdiv | rfl
      refine Piece.scan_plain_append (fun c hc => ?_) s
      have hspec := List.all_eq_true.mp hall c hc
      rwa [Bool.and_eq_true, bne_iff_ne, bne_iff_ne] at hspec
  have htokens : Token.ofPiecesFrom 0 (Piece.join (op.padded.map Piece.ofChar ++ pieces)) =
      (Token.ofPiecesFrom 0 (Piece.join pieces)).map (token :: ·) := by
    cases op <;> cases hop <;> rfl
  refine ⟨?_, ?_, ?_, ?_⟩
  · rw [Segment.ofText_signs hsigns, h.segments_eq]
    rfl
  · rw [hwrite, hscan, h.pieces_eq]
    rfl
  · rw [htokens, h.tokens_eq]
    rfl
  · cases op <;> rfl

end CircuitExpr
