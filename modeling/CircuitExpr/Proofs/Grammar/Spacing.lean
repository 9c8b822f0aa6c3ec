import Mathlib
import CircuitExpr.Proofs.Grammar.Runs
import CircuitExpr.Proofs.Grammar.Words

/-!
# Digits in runs

Digits at the beginning of a word are taken for a number, so the digits that are left as characters
stand inside names. This stays true when comments are taken out. It follows that characters by
themselves never make a number, names such as `inf` apart, and that what stands next to a number or
a reference in a run never completes its placeholder to another one.

## Main statements

* `Mark.isSpaced`, `Mark.isSpaced_ofSegments`, `Mark.isSpaced_bare` — digits stand inside names
* `Mark.Run.mem_ofSegments` — the marks of a run
* `Mark.isLiteralWord_text` — the runs that are read as numbers or truth values
* `Mark.eq_singleton_of_isPlaceholder` — a run that is a placeholder has nothing but its mark
-/

namespace CircuitExpr

open Lifted

/-! ## Segments -/

/-- A first segment that is no reference is a word, a number, or a character that is no digit. -/
theorem Segment.next_cases {c : Char} {rest after : List Char} {segment : Segment}
    (h : next c rest = .ok (segment, after)) :
    (∃ word, segment = .word (c :: word) ∧ Text.isNameStart c = true ∧
        ∀ d ∈ word, Text.isNameChar d = true) ∨
      (∃ chars x, segment = .literal chars x) ∨
      (∃ chars kind quantity arguments e, segment = .reference chars e ∧ kind ≠ .parameter ∧
        referenceExpr kind quantity arguments = .ok e) ∨
      segment = .char c ∧ c.isDigit = false := by
  unfold next at h
  split at h
  · next hstart =>
    unfold ofWord at h
    split at h
    · next kind quantity inner hkind hinner =>
      split at h
      · cases h
      · obtain ⟨e, he, hsegment⟩ := map_eq_ok h
        cases hsegment
        refine .inr (.inr (.inl ⟨_, kind, quantity, _, e, rfl, ?_, he⟩))
        rintro rfl
        unfold referenceKind? at hkind
        split at hkind
        · obtain ⟨_, -, hq⟩ := Option.map_eq_some_iff.mp hkind
          cases hq
        · obtain ⟨_, -, hq⟩ := Option.map_eq_some_iff.mp hkind
          cases hq
        · cases hkind
    · cases h
      exact .inl ⟨_, rfl, hstart, fun d hd => List.mem_takeWhile_imp hd⟩
  · split at h
    · obtain ⟨x, -, hsegment⟩ := map_eq_ok h
      cases hsegment
      exact .inr (.inl ⟨_, x, rfl⟩)
    · next hopens =>
      cases h
      refine .inr (.inr (.inr ⟨rfl, ?_⟩))
      rw [opensNumber, Bool.not_eq_true, Bool.or_eq_false_iff] at hopens
      exact hopens.1

namespace Mark

/-! ## Digits stand inside names -/

/-- Whether digits stand behind characters of names; `named` says whether such a one is in front. -/
def isSpaced : Bool → List Mark → Bool
  | _, [] => true
  | named, char c :: rest => (named || !c.isDigit) && isSpaced (Text.isNameChar c) rest
  | _, _ :: rest => isSpaced false rest

variable {named : Bool} {marks : List Mark}

theorem isSpaced_of_false (h : isSpaced false marks = true) (named : Bool) :
    isSpaced named marks = true := by
  cases marks with
  | nil => rfl
  | cons m rest =>
    cases m with
    | char c =>
      rw [isSpaced, Bool.and_eq_true, Bool.false_or] at h
      rw [isSpaced, h.1, h.2, Bool.or_true, Bool.and_true]
    | literal _ | reference _ => exact h

theorem isSpaced_word {word : List Char} (hword : ∀ c ∈ word, Text.isNameChar c = true)
    (h : isSpaced true marks = true) : isSpaced true (word.map char ++ marks) = true := by
  induction word with
  | nil => exact h
  | cons c rest ih =>
    obtain ⟨hc, hrest⟩ := List.forall_mem_cons.mp hword
    rw [List.map_cons, List.cons_append, isSpaced, hc, ih hrest]
    rfl

/-- **In the marks of a text digits stand inside names.** -/
theorem isSpaced_ofSegments {s : List Char} {segments : List Segment}
    (h : Segment.ofText s = .ok segments) (l r : Nat) :
    isSpaced false (ofSegments l r segments) = true := by
  induction hn : s.length using Nat.strong_induction_on generalizing s segments l r with
  | _ n ih =>
    cases s with
    | nil =>
      rw [Segment.ofText] at h
      cases h
      rfl
    | cons c rest =>
      obtain ⟨segment, after, more, hnext, hmore, rfl⟩ := Segment.ofText_cons_eq_ok h
      have hshort : after.length < n := hn ▸ Segment.next_length hnext
      have hrest := fun l r => ih _ hshort hmore l r rfl
      rcases Segment.next_cases hnext with ⟨word, rfl, hstart, hword⟩ | ⟨chars, x, rfl⟩ |
        ⟨chars, _, _, _, e, rfl, -⟩ | ⟨rfl, hdigit⟩
      · have hdigit : c.isDigit = false := by
          rw [Bool.eq_false_iff]
          intro hdigit
          rw [Segment.isNameStart_of_isDigit hdigit] at hstart
          cases hstart
        rw [ofSegments, List.map_cons, List.cons_append, isSpaced, hdigit,
          Text.isNameChar_of_isNameStart hstart,
          isSpaced_word hword (isSpaced_of_false (hrest l r) true)]
        rfl
      · exact hrest (l + 1) r
      · exact hrest l (r + 1)
      · rw [ofSegments, isSpaced, hdigit, isSpaced_of_false (hrest l r)]
        rfl

theorem isSpaced_tail {m : Mark} {rest : List Mark} (h : isSpaced named (m :: rest) = true) :
    ∃ named', isSpaced named' rest = true := by
  cases m with
  | char c =>
    rw [isSpaced, Bool.and_eq_true] at h
    exact ⟨_, h.2⟩
  | literal _ | reference _ => exact ⟨_, h⟩

/-- Whether a place is outside comments and quotes. -/
def isPlain : Piece.Place → Bool
  | .plain => true
  | .line | .block | .quotes _ => false

/-- **Taking out comments leaves digits inside names**: no comment ends with a character of one. -/
theorem isSpaced_bare {place : Piece.Place} (h : isSpaced named marks = true) :
    isSpaced (named && isPlain place) (bare place marks) = true := by
  fun_induction bare place marks generalizing named with
  | case1 | case5 | case8 | case11 => rfl
  | case2 rest ih | case3 rest ih =>
    obtain ⟨named', h⟩ := isSpaced_tail h
    obtain ⟨named'', h⟩ := isSpaced_tail h
    have hrest := ih h
    rw [isPlain, Bool.and_false] at hrest
    exact isSpaced_of_false hrest _
  | case4 m rest hline hblock ih =>
    rw [isPlain, Bool.and_true]
    cases m with
    | char c =>
      rw [isSpaced, Bool.and_eq_true] at h ⊢
      have hrest := ih h.2
      rw [isPlain, Bool.and_true] at hrest
      exact ⟨h.1, hrest⟩
    | literal _ | reference _ => exact ih h
  | case6 rest ih =>
    rw [isSpaced, Bool.and_eq_true] at h
    have hnewline : Text.isNameChar '\n' = false := by decide +kernel
    have hrest := ih h.2
    rw [hnewline, Bool.false_and] at hrest
    exact isSpaced_of_false hrest _
  | case7 m rest hm ih =>
    obtain ⟨named', h⟩ := isSpaced_tail h
    have hrest := ih h
    rwa [isPlain, Bool.and_false] at hrest ⊢
  | case9 rest ih =>
    obtain ⟨named', h⟩ := isSpaced_tail h
    rw [isSpaced, Bool.and_eq_true] at h
    have hslash : Text.isNameChar '/' = false := by decide +kernel
    have hrest := ih h.2
    rw [hslash, Bool.false_and] at hrest
    exact isSpaced_of_false hrest _
  | case10 m rest hclose ih =>
    obtain ⟨named', h⟩ := isSpaced_tail h
    have hrest := ih h
    rwa [isPlain, Bool.and_false] at hrest ⊢

end Mark

/-! ## Runs -/

namespace MarkPiece

open Mark

/-- Whether digits stand inside names in all runs, the first one perhaps behind such a character. -/
def isSpacedEach : Bool → List MarkPiece → Bool
  | _, [] => true
  | named, run marks :: rest => isSpaced named marks && isSpacedEach false rest
  | _, _ :: rest => isSpacedEach false rest

theorem isNameChar_of_not_run {c : Char} (h : Piece.isSign c = true ∨ Text.isBlank c = true) :
    Text.isNameChar c = false := by
  rcases h with h | h
  · have hall : "+-*/%^(),;=!><&|".toList.all (fun c => !Text.isNameChar c) = true := by
      decide +kernel
    simpa using List.all_eq_true.mp hall c (List.contains_iff_mem.mp h)
  · exact (Text.isBreak_spec (by rw [Text.isBreak, h, Bool.true_or])).1

theorem isSpacedEach_runInto {m : Mark} {named named' : Bool} {ps : List MarkPiece}
    (hm : ∀ marks, isSpaced named' marks = true → isSpaced named (m :: marks) = true)
    (h : isSpacedEach named' ps = true) : isSpacedEach named (runInto [m] ps) = true := by
  have hone : isSpaced named [m] = true := hm [] rfl
  cases ps with
  | nil => exact Bool.and_eq_true_iff.mpr ⟨hone, rfl⟩
  | cons p rest =>
    cases p with
    | run marks =>
      rw [isSpacedEach, Bool.and_eq_true] at h
      rw [runInto, isSpacedEach, List.singleton_append, hm marks h.1, h.2]
      rfl
    | sign _ | blank => exact Bool.and_eq_true_iff.mpr ⟨hone, h⟩

theorem isSpacedEach_join {named : Bool} {marks : List Mark} (h : isSpaced named marks = true) :
    isSpacedEach named (join (marks.map ofMark)) = true := by
  induction marks generalizing named with
  | nil => rfl
  | cons m rest ih =>
    cases m with
    | char c =>
      rw [isSpaced, Bool.and_eq_true] at h
      have hrest := ih h.2
      rw [List.map_cons, ofMark]
      split
      · next hsign =>
        rwa [isNameChar_of_not_run (.inl hsign)] at hrest
      · split
        · next hblank =>
          rwa [isNameChar_of_not_run (.inr hblank)] at hrest
        · refine isSpacedEach_runInto (fun marks hmarks => ?_) hrest
          rw [isSpaced, h.1, hmarks]
          rfl
    | literal _ | reference _ =>
      exact isSpacedEach_runInto (fun marks hmarks => hmarks) (ih h)

theorem isSpaced_of_mem {marks : List Mark} {ps : List MarkPiece}
    (h : isSpacedEach false ps = true) (hmarks : run marks ∈ ps) : isSpaced false marks = true := by
  induction ps with
  | nil => cases hmarks
  | cons p rest ih =>
    cases p with
    | run marks' =>
      rw [isSpacedEach, Bool.and_eq_true] at h
      rcases List.mem_cons.mp hmarks with heq | hrest
      · cases heq
        exact h.1
      · exact ih h.2 hrest
    | sign _ | blank => exact ih h (by simpa using hmarks)

theorem mem_runInto {m : Mark} {marks first : List Mark} {ps : List MarkPiece}
    (h : run marks ∈ runInto first ps) (hm : m ∈ marks) :
    m ∈ first ∨ ∃ part, run part ∈ ps ∧ m ∈ part := by
  have hfirst : run marks ∈ run first :: ps → m ∈ first ∨ ∃ part, run part ∈ ps ∧ m ∈ part := by
    intro h
    rcases List.mem_cons.mp h with heq | hrest
    · cases heq
      exact .inl hm
    · exact .inr ⟨marks, hrest, hm⟩
  cases ps with
  | nil => exact hfirst h
  | cons p rest =>
    cases p with
    | run part =>
      rcases List.mem_cons.mp h with heq | hrest
      · cases heq
        exact (List.mem_append.mp hm).imp_right fun hpart => ⟨part, List.mem_cons_self, hpart⟩
      · exact .inr ⟨marks, List.mem_cons_of_mem _ hrest, hm⟩
    | sign _ | blank => exact hfirst h

theorem mem_join {m : Mark} {marks : List Mark} {ps : List MarkPiece} (h : run marks ∈ join ps)
    (hm : m ∈ marks) : ∃ part, run part ∈ ps ∧ m ∈ part := by
  induction ps generalizing marks with
  | nil => cases h
  | cons p rest ih =>
    cases p with
    | run first =>
      rcases mem_runInto h hm with hfirst | ⟨part, hpart, hm⟩
      · exact ⟨first, List.mem_cons_self, hfirst⟩
      · obtain ⟨part, hpart, hm⟩ := ih hpart hm
        exact ⟨part, List.mem_cons_of_mem _ hpart, hm⟩
    | sign _ | blank =>
      obtain ⟨part, hpart, hm⟩ := ih (by simpa [join] using h) hm
      exact ⟨part, List.mem_cons_of_mem _ hpart, hm⟩

/-- The marks of a run are neither signs nor blanks. -/
theorem mem_of_mem_run {m : Mark} {marks all : List Mark}
    (hmarks : run marks ∈ join (all.map ofMark)) (hm : m ∈ marks) :
    m ∈ all ∧ ∀ c, m = .char c → Piece.isSign c = false ∧ Text.isBlank c = false := by
  obtain ⟨part, hpart, hm⟩ := mem_join hmarks hm
  obtain ⟨m', hall, hpart⟩ := List.mem_map.mp hpart
  cases m' with
  | char c =>
    rw [ofMark] at hpart
    split at hpart
    · cases hpart
    · next hsign =>
      split at hpart
      · cases hpart
      · next hblank =>
        cases hpart
        cases List.mem_singleton.mp hm
        refine ⟨hall, ?_⟩
        rintro _ ⟨⟩
        exact ⟨Bool.eq_false_iff.mpr hsign, Bool.eq_false_iff.mpr hblank⟩
  | literal _ | reference _ =>
    cases hpart
    cases List.mem_singleton.mp hm
    refine ⟨hall, ?_⟩
    rintro _ ⟨⟩

theorem run_mem_of_mem_runs {run : Mark.Run} {ps : List MarkPiece} (h : run ∈ runs ps) :
    .run run.marks ∈ ps := by
  induction ps with
  | nil => cases h
  | cons p rest ih =>
    cases p with
    | run marks =>
      rcases List.mem_cons.mp h with rfl | hrest
      · exact List.mem_cons_self
      · exact List.mem_cons_of_mem _ (ih hrest)
    | sign _ | blank => exact List.mem_cons_of_mem _ (ih h)

end MarkPiece

namespace Mark

/-- What the marks of a run are: its digits stand inside names, and none of them is a sign or a
blank. -/
structure IsRun (segments : List Segment) (marks : List Mark) : Prop where
  spaced : isSpaced false marks = true
  mem : ∀ m ∈ marks, m ∈ Mark.ofSegments 0 0 segments
  sign : ∀ c, char c ∈ marks → Piece.isSign c = false
  blank : ∀ c, char c ∈ marks → Text.isBlank c = false

theorem mem_bare {place : Piece.Place} {m : Mark} {marks : List Mark} (h : m ∈ bare place marks) :
    m ∈ marks := by
  fun_induction bare place marks with
  | case1 | case5 | case8 | case11 => cases h
  | case2 rest ih | case3 rest ih | case9 rest ih =>
    exact List.mem_cons_of_mem _ (List.mem_cons_of_mem _ (ih h))
  | case4 m' rest hline hblock ih =>
    exact List.mem_cons.mpr ((List.mem_cons.mp h).imp_right ih)
  | case6 rest ih | case7 m' rest _ ih | case10 m' rest _ ih => exact List.mem_cons_of_mem _ (ih h)

/-- **The runs of a text.** -/
theorem Run.isRun {s : List Char} {segments : List Segment}
    (hsegments : Segment.ofText s = .ok segments) {run : Run} (h : run ∈ ofSegments segments) :
    IsRun segments run.marks := by
  have hrun := MarkPiece.run_mem_of_mem_runs h
  have hspaced : isSpaced false (bare .plain (Mark.ofSegments 0 0 segments)) = true :=
    isSpaced_bare (isSpaced_ofSegments hsegments 0 0)
  refine ⟨MarkPiece.isSpaced_of_mem (MarkPiece.isSpacedEach_join hspaced) hrun, ?_, ?_, ?_⟩
  · intro m hm
    exact mem_bare (MarkPiece.mem_of_mem_run hrun hm).1
  · intro c hc
    exact ((MarkPiece.mem_of_mem_run hrun hc).2 c rfl).1
  · intro c hc
    exact ((MarkPiece.mem_of_mem_run hrun hc).2 c rfl).2

/-! ## Runs that are read as numbers -/

end Mark

/-- The words that are read as truth values and numbers. -/
def Token.isLiteralWord (chars : List Char) : Bool :=
  chars == "true".toList || chars == "false".toList ||
    ["inf", "infinity", "nan"].contains (String.ofList (chars.map Char.toLower))

namespace Mark

variable {segments : List Segment} {marks : List Mark}

/-- The text of a number or a reference begins with an underscore. -/
theorem exists_text_eq_underscore {m : Mark} (hm : m.isChar = false) (l r : Nat)
    (rest : List Mark) : ∃ cs, text l r (m :: rest) = '_' :: cs := by
  cases m with
  | char c => cases hm
  | literal _ | reference _ => exact ⟨_, rfl⟩

/-- No digit stands at the beginning, or behind a character that is not one of a name. -/
theorem isDigit_head_of_isSpaced (h : isSpaced false marks = true) (l r : Nat) :
    ∀ d ∈ (text l r marks).head?, d.isDigit = false := by
  intro d hd
  cases marks with
  | nil => cases hd
  | cons m rest =>
    by_cases hm : m.isChar = true
    · cases m with
      | char c =>
        cases hd
        rw [isSpaced, Bool.and_eq_true, Bool.false_or, Bool.not_eq_true'] at h
        exact h.1
      | literal _ | reference _ => cases hm
    · obtain ⟨cs, hcs⟩ := exists_text_eq_underscore (Bool.not_eq_true _ ▸ hm) l r rest
      rw [hcs] at hd
      cases hd
      decide

/-- **A run is read as a name unless it is one of these words.** -/
theorem IsRun.ofRun (h : IsRun segments marks)
    (hword : Token.isLiteralWord (text 0 0 marks) = false) :
    Token.ofRun (text 0 0 marks) = .name (text 0 0 marks) := by
  rw [Token.isLiteralWord, Bool.or_eq_false_iff, Bool.or_eq_false_iff] at hword
  obtain ⟨⟨htrue, hfalse⟩, hnumber⟩ := hword
  have hread : Decimal.read? (text 0 0 marks) = none := by
    cases marks with
    | nil => decide +kernel
    | cons m rest =>
      by_cases hm : m.isChar = true
      · cases m with
        | literal _ | reference _ => cases hm
        | char c =>
          have hspaced := h.spaced
          rw [isSpaced, Bool.and_eq_true] at hspaced
          have hpoint : c = '.' → ∀ d ∈ (text 0 0 rest).head?, d.isDigit = false := by
            rintro rfl
            have hname : Text.isNameChar '.' = false := by decide +kernel
            exact isDigit_head_of_isSpaced (hname ▸ hspaced.2) 0 0
          have hsign : c ≠ '-' ∧ c ≠ '+' := by
            have hc := h.sign c List.mem_cons_self
            constructor
            · rintro rfl
              cases hc
            · rintro rfl
              cases hc
          rw [text_char] at hnumber ⊢
          cases hread : Decimal.read? (c :: text 0 0 rest) with
          | none => rfl
          | some x =>
            have hmem := Decimal.word_of_read? (by simpa using hspaced.1) hpoint hsign hread
            rw [List.contains_iff_mem.mpr hmem] at hnumber
            cases hnumber
      · obtain ⟨cs, hcs⟩ := exists_text_eq_underscore (Bool.not_eq_true _ ▸ hm) 0 0 rest
        rw [hcs, Token.read?_underscore]
  rw [Token.ofRun, hread]
  simp only [htrue, hfalse]
  rfl

/-! ## Placeholders among runs -/

theorem underscore_not_mem_digits {digits : List Char} (h : ∀ c ∈ digits, c.isDigit = true) :
    '_' ∉ digits := by
  intro hmem
  exact absurd (h _ hmem) (by decide)

theorem render_eq_placeholder {m : Mark} (hm : m.isChar = false) (l r : Nat) :
    ∃ stem n, (stem = literalStem ∨ stem = referenceStem) ∧ render l r m = placeholder stem n := by
  cases m with
  | char c => cases hm
  | literal index => exact ⟨_, l + index, .inl rfl, rfl⟩
  | reference index => exact ⟨_, r + index, .inr rfl, rfl⟩

/-- A stem with digits behind it has the two underscores of the stem. -/
theorem count_underscore {stem digits : List Char}
    (hstem : stem = literalStem ∨ stem = referenceStem)
    (hdigits : ∀ c ∈ digits, c.isDigit = true) : (stem ++ digits).count '_' = 2 := by
  rw [List.count_append, List.count_eq_zero.mpr (underscore_not_mem_digits hdigits)]
  rcases hstem with rfl | rfl <;> decide

theorem count_underscore_render {m : Mark} (hm : m.isChar = false) (l r : Nat) :
    (render l r m).count '_' = 2 := by
  obtain ⟨stem, n, hstem, hrender⟩ := render_eq_placeholder hm l r
  rw [hrender, placeholder]
  exact count_underscore hstem fun _ hc => isDigit_of_mem_toDigits hc

theorem text_cons_ne_nil (l r : Nat) (m : Mark) (rest : List Mark) : text l r (m :: rest) ≠ [] := by
  rw [text_cons]
  exact List.append_ne_nil_of_left_ne_nil (render_ne_nil l r m) _

end Mark

/-- What is read as a placeholder is a stem with digits behind it. -/
theorem Lifted.isPlaceholder_eq_true {name : List Char} (h : isPlaceholder name = true) :
    ∃ stem digits, (stem = literalStem ∨ stem = referenceStem) ∧ name = stem ++ digits ∧
      ∀ c ∈ digits, c.isDigit = true := by
  rw [isPlaceholder, Bool.or_eq_true, Option.isSome_iff_exists, Option.isSome_iff_exists] at h
  rcases h with ⟨n, hn⟩ | ⟨n, hn⟩
  · obtain ⟨digits, hname, hdigits⟩ := index?_eq_some hn
    exact ⟨_, digits, .inl rfl, hname, hdigits⟩
  · obtain ⟨digits, hname, hdigits⟩ := index?_eq_some hn
    exact ⟨_, digits, .inr rfl, hname, hdigits⟩

namespace Mark

variable {marks : List Mark}

/--
**A run that is read as a placeholder is a number or a reference by itself**, if it has one at all.
A second one, or a character in front, would bring in an underscore too many; characters behind it
begin with no digit.
-/
theorem eq_singleton_of_isPlaceholder (hspaced : isSpaced false marks = true)
    (hmark : marks.all isChar = false) (h : isPlaceholder (text 0 0 marks) = true) :
    ∃ m, marks = [m] ∧ m.isChar = false := by
  obtain ⟨stem, digits, hstem, htext, hdigits⟩ := isPlaceholder_eq_true h
  have hcount : (text 0 0 marks).count '_' = 2 := by rw [htext, count_underscore hstem hdigits]
  obtain ⟨m, hmem, hm⟩ := List.all_eq_false.mp hmark
  have hm : m.isChar = false := Bool.not_eq_true _ ▸ hm
  obtain ⟨before, after, rfl⟩ := List.append_of_mem hmem
  rw [text_append, text_cons, List.count_append, List.count_append,
    count_underscore_render hm] at hcount
  have hbefore : '_' ∉ text 0 0 before := List.count_eq_zero.mp (by omega)
  have hafter : '_' ∉ text 0 0 after := List.count_eq_zero.mp (by omega)
  have hempty : before = [] := by
    cases before with
    | nil => rfl
    | cons m' more =>
      obtain ⟨c, cs, hcs⟩ := List.exists_cons_of_ne_nil (text_cons_ne_nil 0 0 m' more)
      rw [text_append, hcs] at htext
      have hc : c = '_' := by
        rcases hstem with rfl | rfl <;> exact (List.cons.inj htext).1
      rw [hcs, hc] at hbefore
      exact absurd List.mem_cons_self hbefore
  subst hempty
  refine ⟨m, congrArg (m :: ·) ?_, hm⟩
  cases after with
  | nil => rfl
  | cons m' more =>
    obtain ⟨c, cs, hcs⟩ := List.exists_cons_of_ne_nil (text_cons_ne_nil 0 0 m' more)
    have hspaced : isSpaced false (m' :: more) = true := by
      cases m with
      | char c => cases hm
      | literal _ | reference _ => exact hspaced
    have hc : c.isDigit = false := isDigit_head_of_isSpaced hspaced 0 0 c (by rw [hcs]; rfl)
    obtain ⟨stem', n, hstem', hrender⟩ := render_eq_placeholder hm 0 0
    rw [List.nil_append, text_cons, hcs, hrender, placeholder, List.append_assoc] at htext
    have hlength : stem'.length = stem.length := by
      rcases hstem with rfl | rfl <;> rcases hstem' with rfl | rfl <;> rfl
    obtain ⟨-, hrest⟩ := List.append_inj htext hlength
    have hmem : c ∈ digits := by
      rw [← hrest]
      exact List.mem_append_right _ List.mem_cons_self
    rw [hdigits c hmem] at hc
    cases hc

end Mark

end CircuitExpr
