import Mathlib
import CircuitExpr.Grammar.Token
import CircuitExpr.Proofs.Grammar.Placeholders
import CircuitExpr.Proofs.Grammar.Segments

/-!
# Texts whose placeholders are not numbered yet

What a lifted text looks like depends on how many numbers and references stand in front of it. So
numbers and references are kept as marks, and it is shown that comments can be taken out with the
marks still open.

## Main statements

* `Mark.write_eq_text` — a lifted text is the text of its marks under some numbering
* `Mark.scan_strip` — the marks outside comments are what is scanned, for a text without quotes
  that ends outside comments
-/

namespace CircuitExpr

open Lifted

/-! ## Characters of placeholders -/

/-- Neither a sign nor a blank nor a quote: a character that goes into a run. -/
def isOrdinary (c : Char) : Bool := !Piece.isSign c && !Text.isBlank c && c != '"'

theorem isOrdinary_of_isDigit {c : Char} (h : c.isDigit = true) : isOrdinary c = true := by
  have hall : ∀ n < 58, 48 ≤ n → isOrdinary (Char.ofNat n) = true := by decide +kernel
  have hcode := Char.isDigit_iff_toNat.mp h
  have hc := hall c.toNat (Nat.lt_succ_of_le hcode.2) hcode.1
  rwa [Char.ofNat_toNat] at hc

theorem isOrdinary_of_mem_placeholder {stem : List Char} {n : Nat} {c : Char}
    (hstem : stem = literalStem ∨ stem = referenceStem) (h : c ∈ placeholder stem n) :
    isOrdinary c = true := by
  rcases List.mem_append.mp h with h | h
  · have hliteral : literalStem.all isOrdinary = true := by decide +kernel
    have hreference : referenceStem.all isOrdinary = true := by decide +kernel
    rcases hstem with rfl | rfl
    · exact List.all_eq_true.mp hliteral c h
    · exact List.all_eq_true.mp hreference c h
  · exact isOrdinary_of_isDigit (isDigit_of_mem_toDigits h)

theorem ofChar_of_isOrdinary {c : Char} (h : isOrdinary c = true) : Piece.ofChar c = .run [c] := by
  simp only [isOrdinary, Bool.and_eq_true, Bool.not_eq_true'] at h
  simp [Piece.ofChar, h.1.1, h.1.2]

/-! ## Marks -/

/-- A character, or a number or reference that is called by its index. -/
inductive Mark where
  | char (c : Char)
  | literal (index : Nat)
  | reference (index : Nat)
deriving DecidableEq

namespace Mark

/-- The marks of segments, the next number and the next reference being counted. -/
def ofSegments : Nat → Nat → List Segment → List Mark
  | _, _, [] => []
  | l, r, .word chars :: rest => chars.map char ++ ofSegments l r rest
  | l, r, .char c :: rest => char c :: ofSegments l r rest
  | l, r, .literal _ _ :: rest => literal l :: ofSegments (l + 1) r rest
  | l, r, .reference _ _ :: rest => reference r :: ofSegments l (r + 1) rest

/-- The characters of a mark, with the counts begun at given numbers. -/
def render (l r : Nat) : Mark → List Char
  | char c => [c]
  | literal index => placeholder literalStem (l + index)
  | reference index => placeholder referenceStem (r + index)

/-- The text of marks. -/
def text (l r : Nat) (marks : List Mark) : List Char := marks.flatMap (render l r)

theorem text_cons (l r : Nat) (m : Mark) (rest : List Mark) :
    text l r (m :: rest) = render l r m ++ text l r rest := rfl

theorem text_char (l r : Nat) (c : Char) (rest : List Mark) :
    text l r (char c :: rest) = c :: text l r rest := rfl

theorem text_chars (l r : Nat) (cs : List Char) : text l r (cs.map char) = cs := by
  induction cs with
  | nil => rfl
  | cons c rest ih => rw [List.map_cons, text_char, ih]

theorem text_append (l r : Nat) (ms ms' : List Mark) :
    text l r (ms ++ ms') = text l r ms ++ text l r ms' :=
  List.flatMap_append

/-- **A lifted text is the text of its marks.** -/
theorem write_eq_text (l r a b : Nat) (segments : List Segment) :
    write (l + a) (r + b) segments = text l r (ofSegments a b segments) := by
  induction segments generalizing a b with
  | nil => rfl
  | cons segment rest ih =>
    cases segment with
    | word chars => rw [write, ofSegments, text_append, text_chars, ih]
    | char c => rw [write, ofSegments, text_char, ih]
    | literal chars value => rw [write, ofSegments, text_cons, render, Nat.add_assoc, ih]
    | reference chars e => rw [write, ofSegments, text_cons, render, Nat.add_assoc, ih]

theorem isOrdinary_of_mem_render {l r : Nat} {m : Mark} {c : Char}
    (hm : ∀ d, m ≠ char d) (h : c ∈ render l r m) : isOrdinary c = true := by
  cases m with
  | char d => exact absurd rfl (hm d)
  | literal index => exact isOrdinary_of_mem_placeholder (.inl rfl) h
  | reference index => exact isOrdinary_of_mem_placeholder (.inr rfl) h

theorem render_ne_nil (l r : Nat) (m : Mark) : render l r m ≠ [] := by
  cases m <;> simp [render, placeholder, literalStem, referenceStem]

/-! ## Comments -/

/-- The marks outside comments. Quotes are not allowed, and comments have to be closed. -/
def strip : Piece.Place → List Mark → Option (List Mark)
  | .plain, [] => some []
  | .plain, char '"' :: _ => none
  | .plain, char '/' :: char '/' :: rest => strip .line rest
  | .plain, char '/' :: char '*' :: rest => strip .block rest
  | .plain, m :: rest => (strip .plain rest).map (m :: ·)
  | .line, [] => none
  | .line, m :: rest => if m = char '\n' then strip .plain rest else strip .line rest
  | .block, [] => none
  | .block, char '*' :: char '/' :: rest => strip .plain rest
  | .block, _ :: rest => strip .block rest
  | .quotes _, _ => none

end Mark

namespace Piece

theorem scan_plain_append {cs : List Char} (h : ∀ c ∈ cs, c ≠ '"' ∧ c ≠ '/') (t : List Char) :
    scan .plain (cs ++ t) = (scan .plain t).map (cs.map ofChar ++ ·) := by
  induction cs with
  | nil => rw [List.nil_append, List.map_nil, map_nil_append]
  | cons c rest ih =>
    obtain ⟨⟨hquote, hslash⟩, hrest⟩ := List.forall_mem_cons.mp h
    rw [List.cons_append, scan_plain_cons hquote (fun h => absurd h hslash), ih hrest,
      map_cons_append, List.map_cons]

end Piece

namespace Mark

open Piece

variable {l r : Nat} {marks bare : List Mark} {tail : List Char}

/-- A comment goes on to the end of the line. -/
theorem scan_line_append {cs : List Char} (h : ∀ c ∈ cs, c ≠ '\n') (t : List Char) :
    scan .line (cs ++ t) = scan .line t := by
  induction cs with
  | nil => rfl
  | cons c rest ih =>
    obtain ⟨hc, hrest⟩ := List.forall_mem_cons.mp h
    rw [List.cons_append, scan, if_neg (by simpa using hc), ih hrest]

theorem scan_block_append {cs : List Char} (h : ∀ c ∈ cs, c ≠ '*') (t : List Char) :
    scan .block (cs ++ t) = scan .block t := by
  induction cs with
  | nil => rfl
  | cons c rest ih =>
    obtain ⟨hc, hrest⟩ := List.forall_mem_cons.mp h
    rw [List.cons_append, scan, ih hrest]
    rintro more rfl
    exact absurd rfl hc

theorem ne_of_isOrdinary {c d : Char} (h : isOrdinary c = true) (hd : isOrdinary d = false) :
    c ≠ d := by
  rintro rfl
  exact nomatch h.symm.trans hd

/-- The first character is the first mark, or the first one of a placeholder. -/
theorem head_text {m : Mark} {rest : List Mark} {d : Char}
    (h : d ∈ (text l r (m :: rest) ++ tail).head?) : m = char d ∨ isOrdinary d = true := by
  rw [text_cons, List.append_assoc, List.head?_append_of_ne_nil _ (render_ne_nil l r m)] at h
  cases m with
  | char c => exact .inl (congrArg char (Option.mem_some_iff.mp h))
  | literal index | reference index =>
    exact .inr (isOrdinary_of_mem_render (fun _ => by simp) (List.mem_of_mem_head? h))

section Step

variable {m : Mark} {rest : List Mark}

theorem ne_of_mem_render {c d : Char} (hm : m ≠ char d) (hd : isOrdinary d = false)
    (hc : c ∈ render l r m) : c ≠ d := by
  cases m with
  | char d' =>
    rintro rfl
    exact hm (congrArg char (List.mem_singleton.mp hc).symm)
  | literal index | reference index =>
    exact ne_of_isOrdinary (isOrdinary_of_mem_render (fun _ => by simp) hc) hd

/-- A mark that opens neither a comment nor quotes is scanned by itself. -/
theorem scan_plain_mark (l r : Nat) (tail : List Char) (hquote : m ≠ char '"')
    (hline : ∀ more, m = char '/' → rest ≠ char '/' :: more)
    (hblock : ∀ more, m = char '/' → rest ≠ char '*' :: more)
    (htail : ∀ c ∈ tail.head?, c ≠ '/' ∧ c ≠ '*') :
    scan .plain (text l r (m :: rest) ++ tail) =
      (scan .plain (text l r rest ++ tail)).map ((render l r m).map ofChar ++ ·) := by
  rw [text_cons, List.append_assoc]
  by_cases hm : m = char '/'
  · subst hm
    refine scan_plain_cons (by decide) ?_
    rintro - d hd
    cases rest with
    | nil => exact htail d hd
    | cons m' rest =>
      rcases head_text hd with rfl | hd
      · constructor
        · rintro rfl
          exact hline _ rfl rfl
        · rintro rfl
          exact hblock _ rfl rfl
      · exact ⟨ne_of_isOrdinary hd rfl, ne_of_isOrdinary hd rfl⟩
  · exact scan_plain_append (fun c hc => ⟨ne_of_mem_render hquote rfl hc,
      ne_of_mem_render hm rfl hc⟩) _

/-- A comment to the end of the line goes on behind every other mark. -/
theorem scan_line_mark (l r : Nat) (tail : List Char) (hm : m ≠ char '\n') :
    scan .line (text l r (m :: rest) ++ tail) = scan .line (text l r rest ++ tail) := by
  rw [text_cons, List.append_assoc]
  exact scan_line_append (fun c hc => ne_of_mem_render hm rfl hc) _

/-- A comment goes on behind every mark that does not close it. -/
theorem scan_block_mark (l r : Nat) (tail : List Char)
    (hclose : ∀ more, m = char '*' → rest ≠ char '/' :: more)
    (htail : rest = [] → ∀ c ∈ tail.head?, c ≠ '/') :
    scan .block (text l r (m :: rest) ++ tail) = scan .block (text l r rest ++ tail) := by
  rw [text_cons, List.append_assoc]
  by_cases hm : m = char '*'
  · subst hm
    rw [render, List.singleton_append, scan]
    rintro more - hmore
    cases rest with
    | nil => exact htail rfl '/' (by rw [show tail = '/' :: more from hmore]; rfl) rfl
    | cons m' rest =>
      rcases head_text (d := '/') (by rw [hmore]; rfl) with rfl | hd
      · exact hclose _ rfl rfl
      · cases hd
  · exact scan_block_append (fun c hc => ne_of_mem_render hm rfl hc) _

end Step

/-- **Comments leave nothing behind**, and what follows is scanned outside of them. -/
theorem scan_strip {place : Place} (h : strip place marks = some bare)
    (htail : ∀ c ∈ tail.head?, c ≠ '/' ∧ c ≠ '*') :
    scan place (text l r marks ++ tail) =
      (scan .plain tail).map ((text l r bare).map ofChar ++ ·) := by
  fun_induction strip place marks generalizing bare with
  | case1 =>
    cases h
    exact (map_nil_append _).symm
  | case2 | case6 | case9 | case12 => exact nomatch h
  | case3 rest ih =>
    rw [text_char, text_char, List.cons_append, List.cons_append, scan]
    exact ih h
  | case4 rest ih =>
    rw [text_char, text_char, List.cons_append, List.cons_append, scan]
    exact ih h
  | case5 m rest hquote hline hblock ih =>
    obtain ⟨bare, hbare, rfl⟩ := Option.map_eq_some_iff.mp h
    rw [scan_plain_mark l r tail hquote hline hblock htail, ih hbare, text_cons, List.map_append,
      map_append_append]
  | case7 rest ih =>
    rw [text_char, List.cons_append, scan, if_pos (by decide)]
    exact ih h
  | case8 m rest hm ih => rw [scan_line_mark l r tail hm, ih h]
  | case10 rest ih =>
    rw [text_char, text_char, List.cons_append, List.cons_append, scan]
    exact ih h
  | case11 m rest hclose ih =>
    rw [scan_block_mark l r tail hclose (fun _ c hc => (htail c hc).1), ih h]

end Mark

end CircuitExpr
