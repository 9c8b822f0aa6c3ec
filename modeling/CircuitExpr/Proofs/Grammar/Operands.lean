import Mathlib
import CircuitExpr.Proofs.Grammar.Breaks
import CircuitExpr.Proofs.Grammar.Readings

/-!
# Operands in a longer text

An operand is a text that is an expression by itself: a name, a number, a reference, a call or a
group. What it stands for in a longer text is the same if it is tidy, that is if its numbers and
references have the same names there up to a shift. That is not the case for `x.5`, where a
number stands right behind a name, for names such as `__lit0`, and for a number that is called
as a function.

## Main statements

* `Lifted.write_append`, `Lifted.Extends.append` — texts and tables of segments behind others
* `Lexes` — a text with its segments, pieces and tokens, under given counts
* `Operand` — tidy operands
* `Lexes.operand`, `Operand.isRow` — operands in front of other text
-/

namespace CircuitExpr

/-! ## Segments behind others -/

namespace Lifted

/-- How many numbers segments have. -/
def literalCount (segments : List Segment) : Nat := (segments.filterMap literal?).length

/-- How many references segments have. -/
def referenceCount (segments : List Segment) : Nat := (segments.filterMap reference?).length

theorem write_append (l r : Nat) (segments more : List Segment) :
    write l r (segments ++ more) =
      write l r segments ++
        write (l + literalCount segments) (r + referenceCount segments) more := by
  induction segments generalizing l r with
  | nil => rfl
  | cons segment rest ih =>
    cases segment with
    | word chars =>
      rw [List.cons_append, write, write, ih, List.append_assoc]
      rfl
    | char c =>
      rw [List.cons_append, write, write, ih]
      rfl
    | literal chars value =>
      have hcount : literalCount (.literal chars value :: rest) = 1 + literalCount rest :=
        Nat.add_comm _ 1
      rw [List.cons_append, write, write, ih, List.append_assoc, hcount, Nat.add_assoc]
      rfl
    | reference chars e =>
      have hcount : referenceCount (.reference chars e :: rest) = 1 + referenceCount rest :=
        Nat.add_comm _ 1
      rw [List.cons_append, write, write, ih, List.append_assoc, hcount, Nat.add_assoc]
      rfl

theorem literalCount_chars (cs : List Char) : literalCount (cs.map .char) = 0 := by
  induction cs with
  | nil => rfl
  | cons c rest ih => exact ih

theorem referenceCount_chars (cs : List Char) : referenceCount (cs.map .char) = 0 := by
  induction cs with
  | nil => rfl
  | cons c rest ih => exact ih

/-- Both parts of a row of segments are in the larger tables, the second one behind the first. -/
theorem Extends.append {whole : Lifted} {l r : Nat} {segments more : List Segment}
    (h : Extends whole l r (ofSegments (segments ++ more))) :
    Extends whole l r (ofSegments segments) ∧
      Extends whole (l + literalCount segments) (r + referenceCount segments)
        (ofSegments more) := by
  have hliterals : Entries whole.literals l
      (segments.filterMap literal? ++ more.filterMap literal?) := by
    rw [← List.filterMap_append]
    exact h.literals
  have hreferences : Entries whole.references r
      (segments.filterMap reference? ++ more.filterMap reference?) := by
    rw [← List.filterMap_append]
    exact h.references
  exact ⟨⟨hliterals.append.1, hreferences.append.1⟩, hliterals.append.2, hreferences.append.2⟩

/-- Characters add nothing to the tables. -/
theorem Extends.chars {whole : Lifted} {l r : Nat} {more : List Segment} (cs : List Char)
    (h : Extends whole l r (ofSegments (cs.map .char ++ more))) :
    Extends whole l r (ofSegments more) := by
  have hmore := h.append.2
  rwa [literalCount_chars, referenceCount_chars, Nat.add_zero, Nat.add_zero] at hmore

/-- There are no more entries than segments. -/
theorem Extends.refl {segments : List Segment} (h : segments.length ≤ maxIndex) :
    Extends (ofSegments segments) 0 0 (ofSegments segments) :=
  ⟨.refl ((List.length_filterMap_le _ _).trans h), .refl ((List.length_filterMap_le _ _).trans h)⟩

end Lifted

/-! ## Signs and blanks -/

/-- Blanks are no signs. -/
theorem Piece.isSign_of_isBlank {c : Char} (h : Text.isBlank c = true) :
    Piece.isSign c = false := by
  have hall : ∀ n ∈ Text.blankRanges.flatMap fun range =>
      List.range' range.1 (range.2 + 1 - range.1),
      n ∉ "+-*/%^(),;=!><&|".toList.map Char.toNat := by
    decide +kernel
  rw [Bool.eq_false_iff]
  intro hsign
  exact hall _ (Text.mem_of_inRanges h) (List.mem_map_of_mem (List.contains_iff_mem.mp hsign))

/-- A power sign, a sign in front of an operand, or a blank. -/
def IsMarker (c : Char) : Prop := Text.isBreak c = true ∨ c = '-' ∨ c = '!'

/-- The token of a sign; blanks have none. -/
def Token.ofMarker (c : Char) : List Token := if Piece.isSign c then [.ofSign c] else []

section Lexes

variable {c : Char} {l r : Nat} {text : List Char} {segments : List Segment} {pieces : List Piece}
  {tokens : List Token}

theorem IsMarker.ofChar (h : IsMarker c) :
    Piece.ofChar c = if Piece.isSign c then .sign c else .blank := by
  unfold Piece.ofChar
  split
  · rfl
  · next hsign =>
    rcases h with h | rfl | rfl
    · rw [Text.isBreak, Bool.or_eq_true, beq_iff_eq] at h
      rcases h with h | rfl
      · rw [if_pos h]
      · exact absurd (by decide) hsign
    · exact absurd (by decide) hsign
    · exact absurd (by decide) hsign

theorem IsMarker.ne (h : IsMarker c) : ∀ d ∈ ['"', '/', '*', '=', '&', '|'], c ≠ d := by
  have hall : (['"', '/', '*', '=', '&', '|'].all fun d =>
      !(Text.isBreak d || d == '-' || d == '!')) = true := by decide +kernel
  rintro d hd rfl
  have hc := List.all_eq_true.mp hall c hd
  rw [Bool.not_eq_true', Bool.or_eq_false_iff, Bool.or_eq_false_iff] at hc
  rcases h with h | rfl | rfl
  · exact nomatch h.symm.trans hc.1.1
  · exact nomatch hc.1.2
  · exact nomatch hc.2

/-! ## Texts and their tokens -/

/-- A text with its segments, pieces and tokens behind so many numbers and references. -/
structure Lexes (l r : Nat) (text : List Char) (segments : List Segment) (pieces : List Piece)
    (tokens : List Token) : Prop where
  segments_eq : Segment.ofText text = .ok segments
  pieces_eq : Piece.scan .plain (Lifted.write l r segments) = .ok pieces
  tokens_eq : Token.ofPiecesFrom 0 (Piece.join pieces) = .ok tokens
  /-- A sign in front of the text does not go together with it. -/
  equals : Token.equalsNext (Piece.join pieces) = false

namespace Lexes

theorem ofText (h : Lexes l r text segments pieces tokens) :
    Token.ofText (Lifted.write l r segments) = .ok tokens := by
  rw [Token.ofText, Piece.ofText, h.pieces_eq]
  exact h.tokens_eq

theorem nil (l r : Nat) : Lexes l r [] [] [] [] := ⟨by rw [Segment.ofText], rfl, rfl, rfl⟩

/-- A sign or a blank in front of a text. -/
theorem marker (h : Lexes l r text segments pieces tokens) (hc : IsMarker c) :
    Lexes l r (c :: text) (.char c :: segments) (Piece.ofChar c :: pieces)
      (Token.ofMarker c ++ tokens) := by
  have hrun : (Piece.ofChar c).isRun = false := by
    rw [hc.ofChar]
    split <;> rfl
  constructor
  · rw [Segment.ofText_char hc, h.segments_eq]
    rfl
  · rw [Lifted.write, Piece.scan_plain_cons (hc.ne '"' (by decide))
      (fun heq => absurd heq (hc.ne '/' (by decide))), h.pieces_eq]
    rfl
  · rw [Piece.join_of_not_run hrun, hc.ofChar, Token.ofMarker]
    split
    · next hsign =>
      have hglue : Token.glue c (Piece.join pieces) = .ok (.ofSign c, 0) := by
        have hsingle : (c == '&' || c == '|') = false := by
          rw [beq_eq_false_iff_ne.mpr (hc.ne '&' (by decide)),
            beq_eq_false_iff_ne.mpr (hc.ne '|' (by decide)), Bool.or_self]
        unfold Token.glue
        rw [hsingle, h.equals]
        rfl
      rw [Token.ofPiecesFrom, hglue]
      simp only
      rw [h.tokens_eq]
      rfl
    · exact h.tokens_eq
  · rw [Piece.join_of_not_run hrun, hc.ofChar]
    split
    · exact beq_eq_false_iff_ne.mpr (hc.ne '=' (by decide))
    · rfl

theorem markers (h : Lexes l r text segments pieces tokens) {cs : List Char}
    (hcs : ∀ c ∈ cs, IsMarker c) :
    Lexes l r (cs ++ text) (cs.map .char ++ segments) (cs.map Piece.ofChar ++ pieces)
      (cs.flatMap Token.ofMarker ++ tokens) := by
  induction cs with
  | nil => exact h
  | cons c rest ih =>
    obtain ⟨hc, hrest⟩ := List.forall_mem_cons.mp hcs
    rw [List.flatMap_cons, List.append_assoc]
    exact (ih hrest).marker hc

/-- What begins with a sign or a blank is not joined with what stands before it. -/
theorem head (h : Lexes l r text segments pieces tokens) (htext : Segment.Interrupts text) :
    (∀ c ∈ (Lifted.write l r segments).head?, c ≠ '/' ∧ c ≠ '*') ∧
      ∀ p ∈ pieces.head?, p.isRun = false := by
  cases text with
  | nil =>
    have hsegments := h.segments_eq
    rw [Segment.ofText] at hsegments
    cases hsegments
    have hpieces := h.pieces_eq
    cases hpieces
    constructor
    · intro d hd
      cases hd
    · intro p hp
      cases hp
  | cons c rest =>
    have hc : IsMarker c := .inl (htext.head c rfl)
    have hsegments := h.segments_eq
    rw [Segment.ofText_char hc] at hsegments
    obtain ⟨more, -, rfl⟩ := map_eq_ok hsegments
    have hpieces := h.pieces_eq
    rw [Lifted.write, Piece.scan_plain_cons (hc.ne '"' (by decide))
      (fun heq => absurd heq (hc.ne '/' (by decide)))] at hpieces
    obtain ⟨pieces, -, rfl⟩ := map_eq_ok hpieces
    constructor
    · rintro _ ⟨⟩
      exact ⟨hc.ne '/' (by decide), hc.ne '*' (by decide)⟩
    · rintro _ ⟨⟩
      rw [hc.ofChar]
      split <;> rfl

end Lexes

end Lexes

/-! ## Parsing by steps -/

section Parse

variable {s : List Char} {segments : List Segment} {tokens : List Token}

/-- Parsing, once segments and tokens are known. -/
theorem Expr.parse_eq (hsegments : Segment.ofText s = .ok segments)
    (htokens : Token.ofText (Lifted.write 0 0 segments) = .ok tokens) :
    Expr.parse (String.ofList s) =
      match OperatorTree.ofTokens tokens with
      | .error e => .error (.grammar e)
      | .ok tree => tree.toExpr (Lifted.ofSegments segments) := by
  have htree : OperatorTree.ofText (Lifted.write 0 0 segments) = OperatorTree.ofTokens tokens := by
    rw [OperatorTree.ofText, htokens]
    rfl
  rw [Expr.parse, String.toList_ofList, Lifted.ofText, hsegments]
  cases ht : OperatorTree.ofTokens tokens <;>
    simp [Except.map, bind, Except.bind, Lifted.ofSegments, htree, ht]

/-- A text that is an expression has an operator tree. -/
theorem Expr.ofTokens_of_parse {e : Expr Float} (hsegments : Segment.ofText s = .ok segments)
    (htokens : Token.ofText (Lifted.write 0 0 segments) = .ok tokens)
    (h : Expr.parse (String.ofList s) = .ok e) : ∃ t, OperatorTree.ofTokens tokens = .ok t := by
  rw [Expr.parse_eq hsegments htokens] at h
  cases ht : OperatorTree.ofTokens tokens with
  | error e =>
    rw [ht] at h
    exact nomatch h
  | ok t => exact ⟨t, rfl⟩

/-- The expression is what the tree in the outermost group stands for. -/
theorem Expr.parse_eq_plain {t : OperatorTree} (hsegments : Segment.ofText s = .ok segments)
    (htokens : Token.ofText (Lifted.write 0 0 segments) = .ok tokens)
    (ht : OperatorTree.ofTokens tokens = .ok (.node .root [t])) :
    Expr.parse (String.ofList s) = (Reading.ofTree (Lifted.ofSegments segments) t).plain := by
  have hgroup : ∀ x : Except ReadError (Expr Float), x.map (Expr.negateTimes 0) = x := by
    rintro (_ | _) <;> rfl
  rw [Expr.parse_eq hsegments htokens, ht]
  exact hgroup _

end Parse

/-! ## Operands -/

/--
A tidy text that is an expression by itself: a value, a group or a call. Quotes and semicolons are
left out, which no expression has.
-/
structure Operand where
  text : List Char
  value : Expr Float
  segments : List Segment
  marks : List Mark
  tokens : List Token
  parse_eq : Expr.parse (String.ofList text) = .ok value
  segments_eq : Segment.ofText text = .ok segments
  /-- Comments are closed. -/
  marks_eq : Mark.strip .plain (Mark.ofSegments 0 0 segments) = some marks
  /-- Numbers and references stand alone, and no name looks like a placeholder. -/
  clean : (MarkPiece.join (marks.map MarkPiece.ofMark)).all MarkPiece.isClean = true
  tokens_eq : Token.ofText (Lifted.write 0 0 segments) = .ok tokens
  shape : OperatorTree.OperandTokens tokens
  /-- No number and no reference is called as a function. -/
  calls : ∀ chars ∈ OperatorTree.applied none tokens, Lifted.isPlaceholder chars = false

namespace Operand

variable (o : Operand)

/-- The pieces of the operand, with numbers and references still open. -/
def pieces : List MarkPiece := MarkPiece.join (o.marks.map MarkPiece.ofMark)

/-- The operand in front of other text is scanned by itself. -/
theorem scan_append (l r : Nat) (tail : List Char)
    (htail : ∀ c ∈ tail.head?, c ≠ '/' ∧ c ≠ '*') :
    Piece.scan .plain (Lifted.write l r o.segments ++ tail) =
      (Piece.scan .plain tail).map ((Mark.text l r o.marks).map Piece.ofChar ++ ·) := by
  rw [← Mark.scan_strip o.marks_eq htail, ← Mark.write_eq_text l r 0 0 o.segments]
  rfl

theorem ofPieces_eq :
    Token.ofPiecesFrom 0 (o.pieces.map (MarkPiece.render 0 0)) = .ok o.tokens := by
  have hscan := o.scan_append 0 0 [] nofun
  have htokens := o.tokens_eq
  rw [List.append_nil] at hscan
  rw [Token.ofText, Piece.ofText, hscan] at htokens
  rw [← htokens]
  show _ = Token.ofPiecesFrom 0 (Piece.join ((Mark.text 0 0 o.marks).map Piece.ofChar ++ []))
  rw [List.append_nil, MarkPiece.join_text]
  rfl

/-- The tree of the operand. -/
def tree : OperatorTree :=
  match OperatorTree.ofTokens o.tokens with
  | .ok (.node _ [t]) => t
  | _ => OperatorTree.emptyGroup

theorem isOperand : OperatorTree.IsOperand o.tokens o.tree := by
  obtain ⟨whole, hwhole⟩ := Expr.ofTokens_of_parse o.segments_eq o.tokens_eq o.parse_eq
  obtain ⟨t, ht⟩ := o.shape.exists_isOperand hwhole
  have htree : o.tree = t := by rw [tree, ht.ofTokens_eq]
  rwa [htree]

/-- The names of functions are no placeholders, so they stay. -/
theorem shift_applied (l r : Nat) :
    ∀ chars ∈ OperatorTree.applied none o.tokens, Lifted.shift l r chars = chars :=
  fun chars h => Lifted.shift_of_not_placeholder (o.calls chars h)

end Operand

/-- No value begins with an equals sign. -/
theorem Token.equalsNext_eq_false {pieces : List Piece} {token : Token} {rest : List Token}
    (h : ofPiecesFrom 0 pieces = .ok (token :: rest)) (hvalue : token.beginsValue = true) :
    equalsNext pieces = false := by
  cases pieces with
  | nil => rfl
  | cons p more =>
    cases p with
    | blank | run _ | quoted _ => rfl
    | sign c =>
      refine beq_eq_false_iff_ne.mpr ?_
      rintro rfl
      have hglue : glue '=' more = .ok (equal, 1) ∨ glue '=' more = .ok (assign .plain, 0) := by
        unfold glue
        cases equalsNext more
        · exact .inr rfl
        · exact .inl rfl
      rcases hglue with hglue | hglue <;>
        (rw [ofPiecesFrom, hglue] at h
         obtain ⟨_, -, htokens⟩ := map_eq_ok h
         cases htokens
         cases hvalue)

/-- **An operand in front of other text** has its own tokens, up to a shift. -/
theorem Lexes.operand (o : Operand) {l r : Nat} {text : List Char} {segments : List Segment}
    {pieces : List Piece} {tokens : List Token}
    (h : Lexes (l + Lifted.literalCount o.segments) (r + Lifted.referenceCount o.segments) text
      segments pieces tokens) (htext : Segment.Interrupts text) :
    Lexes l r (o.text ++ text) (o.segments ++ segments)
      ((Mark.text l r o.marks).map Piece.ofChar ++ pieces)
      (o.tokens.map (Token.rename (Lifted.shift l r)) ++ tokens) := by
  obtain ⟨hwritten, hpieces⟩ := h.head htext
  have htokens : Token.ofPiecesFrom 0
      (Piece.join ((Mark.text l r o.marks).map Piece.ofChar ++ pieces)) =
        .ok (o.tokens.map (Token.rename (Lifted.shift l r)) ++ tokens) := by
    rw [Piece.join_append _ hpieces, MarkPiece.join_text]
    refine (Token.ofPiecesFrom_append o.ofPieces_eq (Nat.zero_le _) o.clean h.equals l r).trans ?_
    rw [h.tokens_eq]
    rfl
  refine ⟨?_, ?_, htokens, ?_⟩
  · rw [Segment.ofText_append o.segments_eq htext, h.segments_eq]
    rfl
  · rw [Lifted.write_append, o.scan_append l r _ hwritten, h.pieces_eq]
    rfl
  · obtain ⟨token, rest, hhead, hvalue⟩ := o.isOperand.head
    rw [hhead, List.map_cons, List.cons_append] at htokens
    exact Token.equalsNext_eq_false htokens ((Token.beginsValue_rename _ _).trans hvalue)

namespace Operand

variable (o : Operand)

/-- The operand is what its tree stands for. -/
theorem plain_eq :
    (Reading.ofTree (Lifted.ofSegments o.segments) o.tree).plain = .ok o.value := by
  have hparse := Expr.parse_eq_plain o.segments_eq o.tokens_eq o.isOperand.ofTokens_eq
  rw [← hparse, o.parse_eq]

/-- **What the operand stands for in a longer text.** -/
theorem isRow {whole : Lifted} {l r : Nat}
    (h : Lifted.Extends whole l r (Lifted.ofSegments o.segments)) :
    Reading.IsRow whole (o.tree.rename (Lifted.shift l r)) [o.value] :=
  Reading.isRow_rename o.isOperand o.plain_eq fun _ _ he => Lifted.expand_shift h he

end Operand

/-! ## Numbers, references and names are operands -/

namespace Operand

/-- A number with its unit. -/
def ofLiteral {text chars : List Char} {x : Float}
    (h : Segment.ofText text = .ok [.literal chars x]) : Operand where
  text := text
  value := .const x
  segments := [.literal chars x]
  marks := [.literal 0]
  tokens := [.name (Lifted.placeholder Lifted.literalStem 0)]
  parse_eq := (Expr.parse_eq_plain h rfl rfl).trans rfl
  segments_eq := h
  marks_eq := rfl
  clean := rfl
  tokens_eq := rfl
  shape := .name _
  calls := nofun

/-- A circuit reference. -/
def ofReference {text chars : List Char} {e : Expr Float}
    (h : Segment.ofText text = .ok [.reference chars e]) : Operand where
  text := text
  value := e
  segments := [.reference chars e]
  marks := [.reference 0]
  tokens := [.name (Lifted.placeholder Lifted.referenceStem 0)]
  parse_eq := (Expr.parse_eq_plain h rfl rfl).trans rfl
  segments_eq := h
  marks_eq := rfl
  clean := rfl
  tokens_eq := rfl
  shape := .name _
  calls := nofun

end Operand

/-- Names have neither signs nor blanks nor quotes in them. -/
theorem isOrdinary_of_isNameChar {c : Char} (h : Text.isNameChar c = true) :
    isOrdinary c = true := by
  have hothers : ('"' :: "+-*/%^(),;=!><&|".toList).all (fun d => !Text.isNameChar d) = true := by
    decide +kernel
  have hne : ∀ d ∈ '"' :: "+-*/%^(),;=!><&|".toList, c ≠ d := by
    rintro d hd rfl
    have hd := List.all_eq_true.mp hothers c hd
    rw [h] at hd
    cases hd
  have hblank : Text.isBlank c = false := by
    rw [Bool.eq_false_iff]
    intro hblank
    have hbreak : Text.isBreak c = true := by rw [Text.isBreak, hblank, Bool.true_or]
    rw [(Text.isBreak_spec hbreak).1] at h
    cases h
  have hsign : Piece.isSign c = false := by
    rw [Bool.eq_false_iff]
    intro hsign
    exact hne c (List.mem_cons_of_mem _ (List.contains_iff_mem.mp hsign)) rfl
  rw [isOrdinary, hsign, hblank, bne_iff_ne.mpr (hne '"' List.mem_cons_self)]
  rfl

theorem Mark.strip_chars {cs : List Char} (h : ∀ c ∈ cs, isOrdinary c = true) :
    Mark.strip .plain (cs.map .char) = some (cs.map .char) := by
  induction cs with
  | nil => rfl
  | cons c rest ih =>
    obtain ⟨hc, hrest⟩ := List.forall_mem_cons.mp h
    rw [List.map_cons, Mark.strip, ih hrest]
    · rfl
    · rintro ⟨⟩
      exact absurd hc (by decide +kernel)
    · rintro more ⟨⟩
      exact absurd hc (by decide +kernel)
    · rintro more ⟨⟩
      exact absurd hc (by decide +kernel)

/-- A name is a single run. -/
theorem MarkPiece.join_chars {cs : List Char} (hne : cs ≠ []) (h : ∀ c ∈ cs, isOrdinary c = true) :
    MarkPiece.join ((cs.map .char).map MarkPiece.ofMark) = [.run (cs.map .char)] := by
  induction cs with
  | nil => exact absurd rfl hne
  | cons c rest ih =>
    obtain ⟨hc, hrest⟩ := List.forall_mem_cons.mp h
    have hmark : MarkPiece.ofMark (.char c) = .run [.char c] := by
      rw [isOrdinary, Bool.and_eq_true, Bool.and_eq_true, Bool.not_eq_true',
        Bool.not_eq_true'] at hc
      rw [MarkPiece.ofMark, hc.1.1, hc.1.2]
      rfl
    rw [List.map_cons, List.map_cons, hmark, MarkPiece.join]
    cases rest with
    | nil => rfl
    | cons d more =>
      rw [ih (List.cons_ne_nil d more) hrest]
      rfl

namespace Operand

section Name

variable {c : Char} {rest : List Char}

theorem ofText_name (hc : Text.isNameStart c = true)
    (hrest : ∀ d ∈ rest, Text.isNameChar d = true) :
    Segment.ofText (c :: rest) = .ok [.word (c :: rest)] := by
  have hword : Segment.next c rest = .ok (.word (c :: rest), []) := by
    rw [Segment.next, if_pos hc, List.takeWhile_eq_self_iff.mpr hrest,
      List.dropWhile_eq_nil_iff.mpr hrest]
    unfold Segment.ofWord
    split
    · next hparen => cases hparen
    · rfl
  rw [Segment.ofText_cons hword, Segment.ofText]
  rfl

theorem isOrdinary_name (hc : Text.isNameStart c = true)
    (hrest : ∀ d ∈ rest, Text.isNameChar d = true) : ∀ d ∈ c :: rest, isOrdinary d = true :=
  List.forall_mem_cons.mpr ⟨isOrdinary_of_isNameChar (Text.isNameChar_of_isNameStart hc),
    fun d hd => isOrdinary_of_isNameChar (hrest d hd)⟩

theorem token_name {cs : List Char} (hne : cs ≠ []) (h : ∀ c ∈ cs, isOrdinary c = true)
    (hrun : Token.ofRun cs = .name cs) :
    Token.ofText (Lifted.write 0 0 [.word cs]) = .ok [.name cs] := by
  have hplain : ∀ d ∈ cs, d ≠ '"' ∧ d ≠ '/' := fun d hd =>
    ⟨Mark.ne_of_isOrdinary (h d hd) (by decide +kernel),
      Mark.ne_of_isOrdinary (h d hd) (by decide +kernel)⟩
  have hscan : Piece.scan .plain cs = .ok (cs.map Piece.ofChar) := by
    have hscan := Piece.scan_plain_append hplain []
    rw [List.append_nil] at hscan
    rw [hscan]
    exact congrArg Except.ok (List.append_nil _)
  have hjoin : Piece.join (cs.map Piece.ofChar) = [.run cs] := by
    have hjoin := Piece.join_ordinary hne h []
    rwa [List.append_nil] at hjoin
  have hwrite : Lifted.write 0 0 [.word cs] = cs := List.append_nil cs
  rw [hwrite, Token.ofText, Piece.ofText, hscan]
  show Token.ofPiecesFrom 0 (Piece.join (cs.map Piece.ofChar)) = _
  rw [hjoin, ← hrun]
  rfl

end Name

/-- A name that stands for a parameter and does not look like a placeholder. -/
def ofName (c : Char) (rest : List Char) (hc : Text.isNameStart c = true)
    (hrest : ∀ d ∈ rest, Text.isNameChar d = true)
    (hrun : Token.ofRun (c :: rest) = .name (c :: rest))
    (hplain : Lifted.isPlaceholder (c :: rest) = false) : Operand where
  text := c :: rest
  value := .var (.parameter (String.ofList (c :: rest)))
  segments := [.word (c :: rest)]
  marks := (c :: rest).map .char
  tokens := [.name (c :: rest)]
  parse_eq := by
    have htokens := token_name (List.cons_ne_nil c rest) (isOrdinary_name hc hrest) hrun
    refine (Expr.parse_eq_plain (ofText_name hc hrest) htokens rfl).trans ?_
    exact congrArg (Except.map (Expr.negateTimes 0))
      (Lifted.expand_of_not_placeholder (Lifted.ofSegments [.word (c :: rest)]) hplain)
  segments_eq := ofText_name hc hrest
  marks_eq := by
    rw [Mark.ofSegments, Mark.ofSegments, List.append_nil]
    exact Mark.strip_chars (isOrdinary_name hc hrest)
  clean := by
    have hchars : ((c :: rest).map Mark.char).all Mark.isChar = true := by
      simp [Mark.isChar]
    rw [MarkPiece.join_chars (List.cons_ne_nil c rest) (isOrdinary_name hc hrest), List.all_cons,
      MarkPiece.isClean, MarkPiece.isCleanRun, hchars, Mark.text_chars, hplain]
    · rfl
    · simp
    · simp
  tokens_eq := token_name (List.cons_ne_nil c rest) (isOrdinary_name hc hrest) hrun
  shape := .name _
  calls := nofun

end Operand

end CircuitExpr
