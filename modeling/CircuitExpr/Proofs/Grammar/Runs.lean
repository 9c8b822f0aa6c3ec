import Mathlib
import CircuitExpr.Proofs.Grammar.Names
import CircuitExpr.Proofs.Grammar.Operands

/-!
# The runs of a text and the names of its expression

A run is what stands between signs, blanks and quotes once comments are taken out: a row of
characters, numbers and references. It is a function that is called if a value comes next, and
otherwise a value. All names of an expression come from the runs of its text, each run
contributing its own, and no run gets lost.

## Main statements

* `Mark.Run.ofSegments` — the runs of a text, numbers and references kept apart from characters
* `Mark.scan_bare` — a text without quoted parts is scanned as the marks outside comments
* `Expr.written_parse` — **an expression has the names of the runs of its text**
-/

namespace CircuitExpr

open Lifted

/-! ## Texts without quoted parts -/

namespace Piece

/-- Quotes that are opened leave a quoted piece. -/
theorem exists_quoted_of_scan {read s : List Char} {ps : List Piece}
    (h : scan (.quotes read) s = .ok ps) : ∃ chars, quoted chars ∈ ps := by
  generalize hplace : Place.quotes read = place at h
  fun_induction scan place s generalizing read ps with
  | case1 | case2 | case3 | case4 | case5 | case6 | case7 | case8 | case9 | case10 | case11 =>
    cases hplace
  | case12 | case14 | case16 => cases h
  | case13 =>
    obtain ⟨more, -, rfl⟩ := map_eq_ok h
    exact ⟨_, List.mem_cons_self⟩
  | case15 | case17 =>
    rename_i ih
    exact ih rfl h

theorem quoted_mem_join {chars : List Char} {ps : List Piece} (h : quoted chars ∈ ps) :
    quoted chars ∈ join ps := by
  induction ps with
  | nil => exact h
  | cons p rest ih =>
    cases p with
    | run s =>
      have hrest := ih (by simpa using h)
      rw [join_run]
      cases hjoin : join rest with
      | nil => simp [hjoin] at hrest
      | cons q more =>
        rw [hjoin] at hrest
        cases q <;> simpa [runInto] using hrest
    | sign _ | blank | quoted _ =>
      rw [join_of_not_run rfl]
      rcases List.mem_cons.mp h with heq | hrest
      · rw [heq]
        exact List.mem_cons_self
      · exact List.mem_cons_of_mem _ (ih hrest)

end Piece

namespace Mark

open Piece

variable {l r : Nat}

/-- The marks outside comments; a comment to the end of the line may end the text. -/
def bare : Place → List Mark → List Mark
  | .plain, [] => []
  | .plain, char '/' :: char '/' :: rest => bare .line rest
  | .plain, char '/' :: char '*' :: rest => bare .block rest
  | .plain, m :: rest => m :: bare .plain rest
  | .line, [] => []
  | .line, m :: rest => if m = char '\n' then bare .plain rest else bare .line rest
  | .block, [] => []
  | .block, char '*' :: char '/' :: rest => bare .plain rest
  | .block, _ :: rest => bare .block rest
  | .quotes _, _ => []

/-- **What is scanned are the marks outside comments**, if no part of the text is quoted. -/
theorem scan_bare {place : Place} {marks : List Mark} {ps : List Piece}
    (hplace : ∀ read, place ≠ .quotes read) (h : scan place (text l r marks) = .ok ps)
    (hquoted : ∀ chars, quoted chars ∉ ps) : ps = (text l r (bare place marks)).map ofChar := by
  fun_induction bare place marks generalizing ps with
  | case1 | case5 =>
    cases h
    rfl
  | case8 => cases h
  | case2 rest ih =>
    rw [text_char, text_char, scan] at h
    exact ih (by simp) h hquoted
  | case3 rest ih =>
    rw [text_char, text_char, scan] at h
    exact ih (by simp) h hquoted
  | case4 m rest hline hblock ih =>
    by_cases hquote : m = char '"'
    · subst hquote
      rw [text_char, scan] at h
      obtain ⟨chars, hchars⟩ := exists_quoted_of_scan h
      exact absurd hchars (hquoted chars)
    · have hmark := scan_plain_mark l r [] hquote hline hblock (by simp)
      rw [List.append_nil, List.append_nil] at hmark
      rw [hmark] at h
      obtain ⟨more, hmore, rfl⟩ := map_eq_ok h
      rw [text_cons, List.map_append, ← ih (by simp) hmore]
      intro chars hchars
      exact hquoted chars (List.mem_append_right _ hchars)
  | case6 rest ih =>
    rw [text_char, scan, if_pos (by decide)] at h
    exact ih (by simp) h hquoted
  | case7 m rest hm ih =>
    have hmark := @scan_line_mark m rest l r [] hm
    rw [List.append_nil, List.append_nil] at hmark
    exact ih (by simp) (hmark ▸ h) hquoted
  | case9 rest ih =>
    rw [text_char, text_char, scan] at h
    exact ih (by simp) h hquoted
  | case10 m rest hclose ih =>
    have hmark := scan_block_mark l r [] hclose (by simp)
    rw [List.append_nil, List.append_nil] at hmark
    exact ih (by simp) (hmark ▸ h) hquoted
  | case11 marks read => exact absurd rfl (hplace read)

end Mark

/-! ## Runs -/

/-- What stands between signs and blanks, and whether it is called: a value comes next. -/
structure Mark.Run where
  marks : List Mark
  called : Bool
deriving DecidableEq

namespace Mark.Run

/-- The characters of a run, numbers and references being replaced. -/
def text (run : Mark.Run) : List Char := Mark.text 0 0 run.marks

/-- The names that a run contributes to the expression. -/
def names (lifted : Lifted) (run : Mark.Run) : Multiset Name :=
  match Token.ofRun run.text with
  | .name chars =>
    if run.called then (Operator.function chars).names lifted
    else (Operator.readName chars).names lifted
  | _ => 0

end Mark.Run

namespace MarkPiece

/-- Whether a value comes next, blanks apart. -/
def valueNext : List MarkPiece → Bool
  | [] => false
  | blank :: rest => valueNext rest
  | run _ :: _ => true
  | sign c :: _ => c == '('

/-- The runs among pieces. -/
def runs : List MarkPiece → List Mark.Run
  | [] => []
  | run marks :: rest => ⟨marks, valueNext rest⟩ :: runs rest
  | _ :: rest => runs rest

/-- Signs are no runs. -/
theorem runs_drop {n : Nat} {ps : List MarkPiece} (h : ∀ p ∈ ps.take n, ∃ c, p = sign c) :
    runs (ps.drop n) = runs ps := by
  induction ps generalizing n with
  | nil => rw [List.drop_nil]
  | cons p rest ih =>
    cases n with
    | zero => rfl
    | succ n =>
      rw [List.take_succ_cons, List.forall_mem_cons] at h
      obtain ⟨⟨c, rfl⟩, hrest⟩ := h
      exact ih hrest

end MarkPiece

/-! ## The tokens of runs -/

namespace Token

variable {c : Char} {qs : List Piece} {token : Token} {taken : Nat}

theorem equalsNext_eq_true (h : equalsNext qs = true) : ∃ more, qs = .sign '=' :: more := by
  cases qs with
  | nil => cases h
  | cons p rest =>
    cases p with
    | sign c => exact ⟨rest, by rw [beq_iff_eq.mp h]⟩
    | blank | run _ | quoted _ => cases h

/-- Only signs go together with a sign. -/
theorem sign_of_glue (h : glue c qs = .ok (token, taken)) :
    ∀ p ∈ qs.take taken, ∃ d, p = Piece.sign d := by
  unfold glue at h
  split at h
  · split at h
    · cases h
    · next next more =>
      split at h
      · next d =>
        split at h
        · unfold doubled at h
          split at h
          · next hequals =>
            obtain ⟨rest, rfl⟩ := equalsNext_eq_true hequals
            cases h
            simp
          · cases h
            simp
        · cases h
      · cases h
  · split at h
    · next hequals _ =>
      obtain ⟨rest, rfl⟩ := equalsNext_eq_true hequals
      cases h
      simp
    · cases h
      simp

/-- A sign is no name. -/
theorem ne_name_of_glue (h : glue c qs = .ok (token, taken)) (chars : List Char) :
    token ≠ name chars := by
  rintro rfl
  have hrename := rename_of_glue h (fun chars => 'x' :: chars)
  simp [rename] at hrename

theorem beginsValue_ofSign (c : Char) : (ofSign c).beginsValue = (c == '(') := by
  unfold ofSign
  split
  case h_14 hopen _ _ _ _ _ _ => exact (beq_eq_false_iff_ne.mpr hopen).symm
  all_goals decide

theorem beginsValue_of_withEquals? (h : withEquals? c = some token) :
    token.beginsValue = (c == '(') := by
  unfold withEquals? at h
  split at h
  case h_11 => cases h
  all_goals
    cases h
    decide

theorem beginsValue_doubled (c : Char) (qs : List Piece) :
    (doubled c qs).1.beginsValue = false := by
  unfold doubled
  split <;> split <;> rfl

/-- Of the signs, only a parenthesis begins a value. -/
theorem beginsValue_of_glue (h : glue c qs = .ok (token, taken)) :
    token.beginsValue = (c == '(') := by
  unfold glue at h
  split at h
  · next hdouble =>
    have hopen : (c == '(') = false := by
      rw [beq_eq_false_iff_ne]
      rintro rfl
      exact absurd hdouble (by decide)
    split at h
    · cases h
    · split at h
      · split at h
        · rw [hopen, ← beginsValue_doubled c _, Except.ok.inj h]
        · cases h
      · cases h
  · split at h
    · next htoken =>
      cases h
      exact beginsValue_of_withEquals? htoken
    · cases h
      exact beginsValue_ofSign c

theorem ofRun_cases (chars : List Char) :
    (∃ x, ofRun chars = number x) ∨ (∃ b, ofRun chars = boolean b) ∨ ofRun chars = name chars := by
  unfold ofRun
  split
  · exact .inl ⟨_, rfl⟩
  · split
    · exact .inr (.inl ⟨_, rfl⟩)
    · split
      · exact .inr (.inl ⟨_, rfl⟩)
      · exact .inr (.inr rfl)

theorem beginsValue_ofRun (chars : List Char) : (ofRun chars).beginsValue = true := by
  rcases ofRun_cases chars with ⟨x, h⟩ | ⟨b, h⟩ | h <;> rw [h] <;> rfl

/-- The first token begins a value if a value comes next. -/
theorem head_ofPiecesFrom {ps : List MarkPiece} {tokens : List Token} {l r : Nat}
    (h : ofPiecesFrom 0 (ps.map (MarkPiece.render l r)) = .ok tokens) :
    tokens.head?.any beginsValue = MarkPiece.valueNext ps := by
  induction ps generalizing tokens with
  | nil =>
    cases h
    rfl
  | cons p rest ih =>
    rw [List.map_cons] at h
    cases p with
    | blank => exact ih h
    | run marks =>
      obtain ⟨more, -, rfl⟩ := map_eq_ok h
      exact beginsValue_ofRun _
    | sign c =>
      rw [MarkPiece.render, ofPiecesFrom] at h
      split at h
      · cases h
      · next token taken hglue =>
        obtain ⟨more, -, rfl⟩ := map_eq_ok h
        exact beginsValue_of_glue hglue

/-- A quoted piece is a token of its own. -/
theorem quoted_mem_ofPiecesFrom {ps : List Piece} {tokens : List Token} {chars : List Char}
    (h : ofPiecesFrom taken ps = .ok tokens) (hchars : .quoted chars ∈ ps.drop taken) :
    quoted chars ∈ tokens := by
  fun_induction ofPiecesFrom taken ps generalizing tokens with
  | case1 => simp at hchars
  | case2 taken p rest ih => exact ih h hchars
  | case3 rest ih => exact ih h (by simpa using hchars)
  | case4 run rest ih =>
    obtain ⟨more, hmore, rfl⟩ := map_eq_ok h
    exact List.mem_cons_of_mem _ (ih hmore (by simpa using hchars))
  | case5 chars' rest ih =>
    obtain ⟨more, hmore, rfl⟩ := map_eq_ok h
    rcases List.mem_cons.mp hchars with heq | hrest
    · cases heq
      exact List.mem_cons_self
    · exact List.mem_cons_of_mem _ (ih hmore hrest)
  | case6 => cases h
  | case7 c rest token taken hglue ih =>
    obtain ⟨more, hmore, rfl⟩ := map_eq_ok h
    refine List.mem_cons_of_mem _ (ih hmore ?_)
    have hrest : .quoted chars ∈ rest := by simpa using hchars
    rw [← List.take_append_drop taken rest] at hrest
    refine (List.mem_append.mp hrest).resolve_left fun htaken => ?_
    obtain ⟨d, hd⟩ := sign_of_glue hglue _ htaken
    cases hd

end Token

namespace OperatorTree

open Token

variable {afterValue : Bool} {tokens : List Token} {lifted : Lifted}

theorem quoted_mem_operatorsOf {chars : List Char} (h : .quoted chars ∈ tokens) :
    .quoted chars ∈ operatorsOf afterValue tokens := by
  induction tokens generalizing afterValue with
  | nil => simp at h
  | cons token rest ih =>
    rw [operatorsOf, Multiset.mem_add]
    rcases List.mem_cons.mp h with rfl | hrest
    · exact .inl (Multiset.mem_singleton_self _)
    · exact .inr (ih hrest)

/-- Tokens that are no names contribute none. -/
theorem names_own_of_ne_name {token : Token} (h : ∀ chars, token ≠ .name chars)
    (next : Option Token) :
    (operatorOf afterValue token next).own.bind (Operator.names lifted) = 0 := by
  have hnames : (operatorOf afterValue token next).names lifted = 0 := by
    cases token with
    | name chars => exact absurd rfl (h chars)
    | minus => cases afterValue <;> rfl
    | _ => rfl
  unfold Operator.own
  split <;> simp [hnames]

/-- What a name is depends on whether a value comes next; assignments are not read. -/
theorem ofName_of_isRead {chars : List Char} {next : Option Token}
    (h : (ofName chars next).isRead = true) :
    ofName chars next =
      if next.any beginsValue then .function chars else .readName chars := by
  cases next with
  | none => rfl
  | some token =>
    simp only [ofName] at h ⊢
    split
    · next hassign =>
      rw [if_pos hassign] at h
      cases h
    · rfl

/-- A run contributes its names as the token that it is. -/
theorem names_own_run (run : Mark.Run) (lifted : Lifted) {next : Option Token}
    (hread : ∀ op ∈ (operatorOf afterValue (ofRun run.text) next).own, op.isRead = true)
    (hnext : next.any beginsValue = run.called) :
    (operatorOf afterValue (ofRun run.text) next).own.bind (Operator.names lifted) =
      run.names lifted := by
  unfold Mark.Run.names
  rcases ofRun_cases run.text with ⟨x, htoken⟩ | ⟨b, htoken⟩ | htoken
  · rw [htoken]
    exact names_own_of_ne_name (by simp) next
  · rw [htoken]
    exact names_own_of_ne_name (by simp) next
  · rw [htoken] at hread ⊢
    simp only [operatorOf] at hread ⊢
    have hopen : (ofName run.text next).isOpen = false := by
      unfold ofName
      split
      · rfl
      · split
        · rfl
        · split <;> rfl
    rw [Operator.own_of_not_isOpen hopen] at hread ⊢
    rw [Multiset.singleton_bind, ofName_of_isRead (hread _ (Multiset.mem_singleton_self _)), hnext]
    split <;> rfl

/-- **The names of tokens are those of the runs.** -/
theorem names_operatorsOf {ps : List MarkPiece} {taken : Nat}
    (h : ofPiecesFrom taken (ps.map (MarkPiece.render 0 0)) = .ok tokens)
    (hread : ∀ op ∈ operatorsOf afterValue tokens, op.isRead = true) :
    (operatorsOf afterValue tokens).bind (Operator.names lifted) =
      (MarkPiece.runs (ps.drop taken) : Multiset Mark.Run).bind (Mark.Run.names lifted) := by
  induction ps generalizing taken tokens afterValue with
  | nil =>
    cases taken <;> (cases h; rfl)
  | cons p rest ih =>
    rw [List.map_cons] at h
    cases taken with
    | succ taken => exact ih h hread
    | zero =>
      cases p with
      | blank => exact ih h hread
      | run marks =>
        obtain ⟨more, hmore, rfl⟩ := map_eq_ok h
        rw [operatorsOf] at hread ⊢
        have hown := names_own_run ⟨marks, MarkPiece.valueNext rest⟩ lifted
          (fun op hop => hread op (Multiset.mem_add.mpr (.inl hop))) (head_ofPiecesFrom hmore)
        rw [List.drop_zero, MarkPiece.runs, ← Multiset.cons_coe, Multiset.cons_bind,
          Multiset.add_bind, ← hown,
          ih hmore fun op hop => hread op (Multiset.mem_add.mpr (.inr hop)), List.drop_zero]
        rfl
      | sign c =>
        rw [MarkPiece.render, ofPiecesFrom] at h
        split at h
        · cases h
        · next token taken hglue =>
          obtain ⟨more, hmore, rfl⟩ := map_eq_ok h
          have hsigns : ∀ p ∈ rest.take taken, ∃ d, p = MarkPiece.sign d := by
            intro p hp
            obtain ⟨d, hd⟩ := sign_of_glue hglue (p.render 0 0) (by
              rw [← List.map_take]
              exact List.mem_map_of_mem hp)
            cases p with
            | sign d => exact ⟨d, rfl⟩
            | blank | run _ => cases hd
          rw [operatorsOf] at hread ⊢
          rw [List.drop_zero, MarkPiece.runs, Multiset.add_bind,
            names_own_of_ne_name (ne_name_of_glue hglue), zero_add,
            ih hmore fun op hop => hread op (Multiset.mem_add.mpr (.inr hop)),
            MarkPiece.runs_drop hsigns]
          simp

end OperatorTree

/-! ## The runs of a text -/

namespace Mark.Run

/-- The runs of segments, with numbers and references kept apart from characters. -/
def ofSegments (segments : List Segment) : List Mark.Run :=
  MarkPiece.runs
    (MarkPiece.join ((bare .plain (Mark.ofSegments 0 0 segments)).map MarkPiece.ofMark))

end Mark.Run

/-- What is parsed has been cut into segments and tokens and put together to a tree. -/
theorem Expr.exists_of_parse {s : String} {e : Expr Float} (h : Expr.parse s = .ok e) :
    ∃ segments tokens t, Segment.ofText s.toList = .ok segments ∧
      Token.ofText (Lifted.write 0 0 segments) = .ok tokens ∧
        OperatorTree.ofTokens tokens = .ok t ∧
          t.toExpr (Lifted.ofSegments segments) = .ok e := by
  obtain ⟨lifted, hlifted, h⟩ := bind_eq_ok.mp h
  obtain ⟨segments, hsegments, rfl⟩ := map_eq_ok hlifted
  cases htree : OperatorTree.ofText (Lifted.ofSegments segments).text with
  | error error =>
    rw [htree] at h
    cases h
  | ok t =>
    rw [htree] at h
    obtain ⟨tokens, htokens, ht⟩ := bind_eq_ok.mp htree
    exact ⟨segments, tokens, t, hsegments, htokens, ht, h⟩

/-- **An expression has the names of the runs of its text**, each as often as they have it. -/
theorem Expr.written_parse {s : String} {e : Expr Float} (h : Expr.parse s = .ok e) :
    ∃ segments, Segment.ofText s.toList = .ok segments ∧
      e.written = (Mark.Run.ofSegments segments : Multiset Mark.Run).bind
        (Mark.Run.names (Lifted.ofSegments segments)) := by
  obtain ⟨segments, tokens, t, hsegments, htokens, ht, he⟩ := Expr.exists_of_parse h
  refine ⟨segments, hsegments, ?_⟩
  obtain ⟨hops, hfits⟩ := OperatorTree.operators_ofTokens ht
  obtain ⟨hread, hwritten⟩ := OperatorTree.accounts_toExpr hfits he
  rw [hops] at hread hwritten
  have hwrite : Lifted.write 0 0 segments = Mark.text 0 0 (Mark.ofSegments 0 0 segments) :=
    Mark.write_eq_text 0 0 0 0 segments
  rw [Token.ofText, Piece.ofText, hwrite] at htokens
  cases hscan : Piece.scan .plain (Mark.text 0 0 (Mark.ofSegments 0 0 segments)) with
  | error error =>
    rw [hscan] at htokens
    cases htokens
  | ok pieces =>
    rw [hscan] at htokens
    have htokens : Token.ofPiecesFrom 0 (Piece.join pieces) = .ok tokens := htokens
    -- A quoted piece would be a quoted token, which no expression has.
    have hquoted : ∀ chars, .quoted chars ∉ pieces := by
      intro chars hchars
      have htoken := Token.quoted_mem_ofPiecesFrom htokens (Piece.quoted_mem_join hchars)
      have hop := hread _ (OperatorTree.quoted_mem_operatorsOf htoken)
      cases hop
    rw [Mark.scan_bare (by simp) hscan hquoted, MarkPiece.join_text] at htokens
    calc e.written
        = Expr.writtenEach [e] := by simp
      _ = (OperatorTree.operatorsOf false tokens).bind
            (Operator.names (Lifted.ofSegments segments)) := hwritten
      _ = (Mark.Run.ofSegments segments : Multiset Mark.Run).bind
            (Mark.Run.names (Lifted.ofSegments segments)) :=
          OperatorTree.names_operatorsOf htokens hread

end CircuitExpr
