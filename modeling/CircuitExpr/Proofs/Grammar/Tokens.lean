import Mathlib
import CircuitExpr.Proofs.Grammar.Marks

/-!
# Tokens of marks

Pieces of marks are put together as pieces of characters are, before anything is numbered. Where
a run is clean, that is a single placeholder or nothing but characters, its token is a name that
is shifted or no placeholder at all. So the tokens of a text in front of which there are numbers
are its own tokens with the names shifted.

## Main statements

* `MarkPiece.join_text` — runs are joined in the same way however marks are numbered
* `MarkPiece.ofRun_text` — the token of a clean run is shifted
* `Token.ofPiecesFrom_append` — the tokens of a text by itself, and then those of what follows
-/

namespace CircuitExpr

open Lifted

/-! ## Joining -/

namespace Piece

def isRun : Piece → Bool
  | run _ => true
  | _ => false

/-- Puts characters in front of the run at the beginning, or makes them a run. -/
def runInto (s : List Char) : List Piece → List Piece
  | run t :: more => run (s ++ t) :: more
  | ps => run s :: ps

theorem runInto_of_not_run {ps : List Piece} (h : ∀ p ∈ ps.head?, p.isRun = false)
    (s : List Char) : runInto s ps = run s :: ps := by
  cases ps with
  | nil => rfl
  | cons p rest =>
    cases p with
    | run t => exact nomatch h _ rfl
    | sign _ | blank | quoted _ => rfl

theorem runInto_runInto (s t : List Char) (ps : List Piece) :
    runInto s (runInto t ps) = runInto (s ++ t) ps := by
  cases ps with
  | nil => rfl
  | cons p rest =>
    cases p with
    | run u => exact congrArg (run · :: rest) (List.append_assoc s t u).symm
    | sign _ | blank | quoted _ => rfl

theorem join_run (s : List Char) (rest : List Piece) :
    join (run s :: rest) = runInto s (join rest) := by
  cases hrest : join rest with
  | nil => simp only [join, hrest, runInto]
  | cons p more => cases p <;> simp only [join, hrest, runInto]

theorem join_of_not_run {p : Piece} (hp : p.isRun = false) (rest : List Piece) :
    join (p :: rest) = p :: join rest := by
  cases p with
  | run _ => exact nomatch hp
  | sign _ | blank | quoted _ => rw [join]; exact fun _ _ _ h => nomatch h

theorem join_head {ps : List Piece} (h : ∀ p ∈ ps.head?, p.isRun = false) :
    ∀ p ∈ (join ps).head?, p.isRun = false := by
  cases ps with
  | nil => exact h
  | cons p rest =>
    rw [join_of_not_run (h p rfl)]
    exact h

/-- Nothing is joined where the second row does not begin with a run. -/
theorem join_append (ps : List Piece) {qs : List Piece} (h : ∀ q ∈ qs.head?, q.isRun = false) :
    join (ps ++ qs) = join ps ++ join qs := by
  induction ps with
  | nil => rfl
  | cons p rest ih =>
    rw [List.cons_append]
    by_cases hp : ∃ s, p = run s
    · obtain ⟨s, rfl⟩ := hp
      rw [join_run, join_run, ih]
      cases hrest : join rest with
      | nil =>
        rw [List.nil_append, runInto_of_not_run (join_head h)]
        rfl
      | cons q more => cases q <;> rfl
    · have hp : p.isRun = false := by
        cases p with
        | run s => exact absurd ⟨s, rfl⟩ hp
        | sign _ | blank | quoted _ => rfl
      rw [join_of_not_run hp, join_of_not_run hp, ih, List.cons_append]

/-- The characters of a placeholder make one run. -/
theorem join_ordinary {cs : List Char} (hne : cs ≠ []) (h : ∀ c ∈ cs, isOrdinary c = true)
    (rest : List Piece) : join (cs.map ofChar ++ rest) = runInto cs (join rest) := by
  induction cs with
  | nil => exact absurd rfl hne
  | cons c more ih =>
    obtain ⟨hc, hmore⟩ := List.forall_mem_cons.mp h
    rw [List.map_cons, List.cons_append, ofChar_of_isOrdinary hc, join_run]
    cases more with
    | nil => rfl
    | cons d more =>
      rw [ih (List.cons_ne_nil d more) hmore, runInto_runInto]
      rfl

end Piece

/-- What marks consist of before they are numbered. -/
inductive MarkPiece where
  | sign (c : Char)
  | blank
  | run (marks : List Mark)
deriving DecidableEq

namespace MarkPiece

/-- The piece of a single mark outside quotes and comments. -/
def ofMark : Mark → MarkPiece
  | .char c =>
    if Piece.isSign c then sign c else if Text.isBlank c then blank else run [.char c]
  | m => run [m]

/-- Puts marks in front of the run at the beginning, or makes them a run. -/
def runInto (ms : List Mark) : List MarkPiece → List MarkPiece
  | run ms' :: more => run (ms ++ ms') :: more
  | ps => run ms :: ps

/-- Joins runs that stand next to each other. -/
def join : List MarkPiece → List MarkPiece
  | [] => []
  | run ms :: rest => runInto ms (join rest)
  | p :: rest => p :: join rest

/-- The piece with the counts begun at given numbers. -/
def render (l r : Nat) : MarkPiece → Piece
  | sign c => .sign c
  | blank => .blank
  | run ms => .run (Mark.text l r ms)

variable {l r : Nat}

theorem map_render_runInto (ms : List Mark) (ps : List MarkPiece) :
    (runInto ms ps).map (render l r) =
      Piece.runInto (Mark.text l r ms) (ps.map (render l r)) := by
  cases ps with
  | nil => rfl
  | cons p rest =>
    cases p with
    | run ms' =>
      rw [runInto, List.map_cons, List.map_cons, render, render, Piece.runInto, Mark.text_append]
    | sign _ | blank => rfl

/-- **Runs are joined in the same way however marks are numbered.** -/
theorem join_text (l r : Nat) (marks : List Mark) :
    Piece.join ((Mark.text l r marks).map Piece.ofChar) =
      (join (marks.map ofMark)).map (render l r) := by
  induction marks with
  | nil => rfl
  | cons m rest ih =>
    rw [Mark.text_cons, List.map_append, List.map_cons]
    by_cases hm : ∃ c, m = .char c
    · obtain ⟨c, rfl⟩ := hm
      rw [Mark.render, List.map_singleton, List.singleton_append, ofMark, Piece.ofChar]
      split
      · rw [Piece.join_of_not_run rfl, ih]
        rfl
      · split
        · rw [Piece.join_of_not_run rfl, ih]
          rfl
        · rw [Piece.join_run, ih, join, map_render_runInto]
          rfl
    · have hrun : ofMark m = run [m] := by
        cases m with
        | char c => exact absurd ⟨c, rfl⟩ hm
        | literal _ | reference _ => rfl
      have hordinary : ∀ c ∈ Mark.render l r m, isOrdinary c = true := fun c hc =>
        Mark.isOrdinary_of_mem_render (fun d hd => hm ⟨d, hd⟩) hc
      rw [Piece.join_ordinary (Mark.render_ne_nil l r m) hordinary, ih, hrun, join,
        map_render_runInto, Mark.text_cons, Mark.text, List.flatMap_nil, List.append_nil]

end MarkPiece

/-! ## Tokens with names shifted -/

/-- What does not begin with a digit or a sign, nor with a point before a digit, is not written in
digits: if it is a number, then by its name. -/
theorem Decimal.word_of_read? {c : Char} {rest : List Char} {x : Float} (hdigit : c.isDigit = false)
    (hpoint : c = '.' → ∀ d ∈ rest.head?, d.isDigit = false) (hsign : c ≠ '-' ∧ c ≠ '+')
    (h : read? (c :: rest) = some x) :
    String.ofList ((c :: rest).map Char.toLower) ∈ ["inf", "infinity", "nan"] := by
  have hreadSign : readSign (c :: rest) = (false, c :: rest) := by
    unfold readSign
    split
    · next heq => exact absurd (List.cons.inj heq).1 hsign.1
    · next heq => exact absurd (List.cons.inj heq).1 hsign.2
    · rfl
  have hspan : spanDigits (c :: rest) = ([], c :: rest) := by
    simp [spanDigits, List.span_eq_takeWhile_dropWhile, hdigit]
  have hdigits : readDigits? (c :: rest) = none := by
    unfold readDigits?
    simp only [hspan]
    split
    · next more heq =>
      obtain ⟨rfl, rfl⟩ := List.cons.inj heq
      have hmore : spanDigits rest = ([], rest) := by
        cases rest with
        | nil => rfl
        | cons d more =>
          simp [spanDigits, List.span_eq_takeWhile_dropWhile, hpoint rfl d rfl]
      simp [hmore]
    · rfl
  simp only [read?, hreadSign] at h
  obtain ⟨y, hy, -⟩ := Option.map_eq_some_iff.mp h
  simp only [readUnsigned?, hdigits] at hy
  simp only [List.mem_cons, List.not_mem_nil, or_false]
  split at hy
  · next hinf =>
    rw [Bool.or_eq_true, beq_iff_eq, beq_iff_eq] at hinf
    exact hinf.elim .inl fun hinfinity => .inr (.inl hinfinity)
  · split at hy
    · next hnan => exact .inr (.inr (beq_iff_eq.mp hnan))
    · cases hy

/-- Infinities and undefined numbers are read by their names, in any case. -/
theorem Decimal.read?_word {chars : List Char}
    (h : String.ofList (chars.map Char.toLower) ∈ ["inf", "infinity", "nan"]) :
    read? chars ≠ none := by
  have hsign : readSign chars = (false, chars) := by
    have hheads : ∀ word ∈ ["inf", "infinity", "nan"], word.toList.head? ≠ some '-' ∧
        word.toList.head? ≠ some '+' := by decide
    have hhead := hheads _ h
    rw [String.toList_ofList] at hhead
    unfold readSign
    split
    · exact absurd rfl hhead.1
    · exact absurd rfl hhead.2
    · rfl
  simp only [List.mem_cons, List.not_mem_nil, or_false] at h
  rcases h with h | h | h <;> simp [read?, hsign, readUnsigned?, h]

namespace Token

/-- The token with its name changed. -/
def rename (g : List Char → List Char) : Token → Token
  | name chars => name (g chars)
  | token => token

@[simp] theorem rename_id (token : Token) : token.rename id = token := by
  cases token <;> rfl

section Rename

variable (g : List Char → List Char) (token : Token)

@[simp] theorem endsValue_rename : (token.rename g).endsValue = token.endsValue := by
  cases token <;> rfl

@[simp] theorem beginsValue_rename : (token.rename g).beginsValue = token.beginsValue := by
  cases token <;> rfl

@[simp] theorem isAssignment_rename : (token.rename g).isAssignment = token.isAssignment := by
  cases token <;> rfl

end Rename

/-- No number begins with an underscore. -/
theorem read?_underscore (chars : List Char) : Decimal.read? ('_' :: chars) = none := by
  cases hread : Decimal.read? ('_' :: chars) with
  | none => rfl
  | some x =>
    have hword := Decimal.word_of_read? (by decide) (by rintro ⟨⟩) (by decide) hread
    have hhead : ∀ word ∈ ["inf", "infinity", "nan"], word.toList.head? ≠ some '_' := by decide
    have hne := hhead _ hword
    rw [String.toList_ofList] at hne
    exact absurd rfl hne

theorem ofRun_placeholder {stem : List Char} {n : Nat}
    (hstem : stem = literalStem ∨ stem = referenceStem) :
    ofRun (placeholder stem n) = name (placeholder stem n) := by
  obtain ⟨chars, hchars⟩ : ∃ chars, placeholder stem n = '_' :: '_' :: chars := by
    rcases hstem with rfl | rfl
    · exact ⟨_, rfl⟩
    · exact ⟨_, rfl⟩
  rw [hchars, ofRun, read?_underscore]
  rfl

end Token

/-! ## Clean runs -/

namespace Mark

def isChar : Mark → Bool
  | char _ => true
  | _ => false

/-- Characters are the same however marks are numbered. -/
theorem text_of_chars {marks : List Mark} (h : marks.all isChar = true) (l r : Nat) :
    text l r marks = text 0 0 marks := by
  induction marks with
  | nil => rfl
  | cons m rest ih =>
    rw [List.all_cons, Bool.and_eq_true] at h
    cases m with
    | char c => rw [text_char, text_char, ih h.2]
    | literal _ | reference _ => exact nomatch h.1

end Mark

namespace MarkPiece

/-- Whether a run is a single number or reference, or characters that do not look like one. -/
def isCleanRun : List Mark → Bool
  | [.literal index] | [.reference index] => index ≤ maxIndex
  | marks => marks.all Mark.isChar && !isPlaceholder (Mark.text 0 0 marks)

def isClean : MarkPiece → Bool
  | run marks => isCleanRun marks
  | _ => true

/-- **The token of a clean run is shifted.** -/
theorem ofRun_text {marks : List Mark} (h : isCleanRun marks = true) (l r : Nat) :
    Token.ofRun (Mark.text l r marks) =
      (Token.ofRun (Mark.text 0 0 marks)).rename (shift l r) := by
  fun_cases isCleanRun marks with
  | case1 index =>
    have hindex : index ≤ maxIndex := of_decide_eq_true h
    have htext : ∀ n m, Mark.text n m [.literal index] = placeholder literalStem (n + index) :=
      fun n m => List.append_nil _
    rw [htext, htext, Token.ofRun_placeholder (.inl rfl), Token.ofRun_placeholder (.inl rfl),
      Token.rename, Nat.zero_add, shift_literal hindex]
  | case2 index =>
    have hindex : index ≤ maxIndex := of_decide_eq_true h
    have htext : ∀ n m, Mark.text n m [.reference index] = placeholder referenceStem (m + index) :=
      fun n m => List.append_nil _
    rw [htext, htext, Token.ofRun_placeholder (.inr rfl), Token.ofRun_placeholder (.inr rfl),
      Token.rename, Nat.zero_add, shift_reference hindex]
  | case3 marks hliteral hreference =>
    rw [isCleanRun, Bool.and_eq_true, Bool.not_eq_true'] at h
    · rw [Mark.text_of_chars h.1]
      unfold Token.ofRun
      split
      · rfl
      · split
        · rfl
        · split
          · rfl
          · rw [Token.rename, shift_of_not_placeholder h.2]
    · exact hliteral
    · exact hreference

end MarkPiece

/-! ## From pieces to tokens -/

namespace Token

variable {c : Char} {ps : List MarkPiece} {qs : List Piece}

theorem equalsNext_render (hqs : equalsNext qs = false) (l r : Nat) :
    equalsNext (ps.map (MarkPiece.render l r) ++ qs) =
      equalsNext (ps.map (MarkPiece.render 0 0)) := by
  cases ps with
  | nil => exact hqs
  | cons p rest => cases p <;> rfl

theorem length_of_equalsNext (h : equalsNext qs = true) : 1 ≤ qs.length := by
  cases qs with
  | nil => exact nomatch h
  | cons p rest => exact Nat.succ_le_succ (Nat.zero_le _)

theorem doubled_length (c : Char) (qs : List Piece) : (doubled c qs).2 ≤ qs.length + 1 := by
  unfold doubled
  split
  · next hequals => exact Nat.succ_le_succ (length_of_equalsNext hequals)
  · exact Nat.succ_le_succ (Nat.zero_le _)

/-- What a sign opens depends neither on the names behind it nor on what follows them. -/
theorem glue_render {token : Token} {taken : Nat}
    (h : glue c (ps.map (MarkPiece.render 0 0)) = .ok (token, taken))
    (hqs : equalsNext qs = false) (l r : Nat) :
    glue c (ps.map (MarkPiece.render l r) ++ qs) = .ok (token, taken) ∧ taken ≤ ps.length := by
  unfold glue at h ⊢
  rw [equalsNext_render hqs]
  split at h
  · next hdouble =>
    rw [if_pos hdouble]
    cases ps with
    | nil => exact nomatch h
    | cons next more =>
      cases next with
      | blank | run _ => exact nomatch h
      | sign d =>
        simp only [List.map_cons, MarkPiece.render, List.cons_append] at h ⊢
        split at h
        · next hd =>
          have hlength := doubled_length c (more.map (MarkPiece.render 0 0))
          rw [if_pos hd, doubled, equalsNext_render hqs]
          rw [Except.ok.inj h, List.length_map] at hlength
          exact ⟨h, hlength⟩
        · exact nomatch h
  · next hdouble =>
    rw [if_neg hdouble]
    refine ⟨h, ?_⟩
    split at h
    · next hequals _ =>
      cases h
      have hlength := length_of_equalsNext hequals
      rwa [List.length_map] at hlength
    · cases h
      exact Nat.zero_le _

theorem ofSign_ne_name (c : Char) (chars : List Char) : ofSign c ≠ name chars := by
  unfold ofSign
  split <;> simp

theorem withEquals?_ne_name (c : Char) (chars : List Char) :
    withEquals? c ≠ some (name chars) := by
  unfold withEquals?
  split <;> simp

theorem doubled_ne_name (c : Char) (qs : List Piece) (chars : List Char) :
    (doubled c qs).1 ≠ name chars := by
  unfold doubled
  split <;> split <;> simp

/-- Signs are no names. -/
theorem rename_of_glue {token : Token} {taken : Nat} (h : glue c qs = .ok (token, taken))
    (g : List Char → List Char) : token.rename g = token := by
  cases token with
  | name chars =>
    unfold glue at h
    split at h
    · split at h
      · exact nomatch h
      · split at h
        · split at h
          · exact absurd (congrArg Prod.fst (Except.ok.inj h)) (doubled_ne_name _ _ chars)
          · exact nomatch h
        · exact nomatch h
    · split at h
      · next hsome =>
        cases h
        exact absurd hsome (withEquals?_ne_name c chars)
      · exact absurd (congrArg Prod.fst (Except.ok.inj h)) (ofSign_ne_name c chars)
  | _ => rfl

/-- **The tokens of a text by itself**, with the names shifted, and then those of what follows. -/
theorem ofPiecesFrom_append {taken : Nat} {tokens : List Token}
    (h : ofPiecesFrom taken (ps.map (MarkPiece.render 0 0)) = .ok tokens)
    (htaken : taken ≤ ps.length) (hps : ps.all MarkPiece.isClean = true)
    (hqs : equalsNext qs = false) (l r : Nat) :
    ofPiecesFrom taken (ps.map (MarkPiece.render l r) ++ qs) =
      (ofPiecesFrom 0 qs).map (tokens.map (rename (shift l r)) ++ ·) := by
  induction ps generalizing taken tokens with
  | nil =>
    cases Nat.le_zero.mp htaken
    cases h
    exact (map_nil_append _).symm
  | cons p rest ih =>
    rw [List.all_cons, Bool.and_eq_true] at hps
    rw [List.map_cons] at h
    rw [List.map_cons, List.cons_append]
    cases taken with
    | succ taken =>
      rw [ofPiecesFrom] at h ⊢
      exact ih h (Nat.le_of_succ_le_succ htaken) hps.2
    | zero =>
      cases p with
      | blank =>
        rw [MarkPiece.render, ofPiecesFrom] at h ⊢
        exact ih h (Nat.zero_le _) hps.2
      | run marks =>
        rw [MarkPiece.render, ofPiecesFrom] at h ⊢
        obtain ⟨more, hmore, rfl⟩ := map_eq_ok h
        rw [ih hmore (Nat.zero_le _) hps.2, map_cons_append, MarkPiece.ofRun_text hps.1]
        rfl
      | sign c =>
        rw [MarkPiece.render, ofPiecesFrom] at h ⊢
        cases hglue : glue c (rest.map (MarkPiece.render 0 0)) with
        | error e =>
          rw [hglue] at h
          exact nomatch h
        | ok r =>
          obtain ⟨token, taken⟩ := r
          obtain ⟨hwhole, hlength⟩ := glue_render hglue hqs l r
          rw [hglue] at h
          obtain ⟨more, hmore, rfl⟩ := map_eq_ok h
          rw [hwhole, List.map_cons, rename_of_glue hglue]
          simp only
          rw [ih hmore hlength hps.2, map_cons_append]

end Token

end CircuitExpr
