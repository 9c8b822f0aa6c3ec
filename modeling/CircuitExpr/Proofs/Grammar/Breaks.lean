import Mathlib
import CircuitExpr.Proofs.Grammar.Segmentation

/-!
# Segments in front of a break

A text that is cut into segments by itself is cut in the same way in front of other text, if that
begins with a blank or with the power sign and does not go on with a parenthesis: no name and no
number reaches over its end then, and no word becomes a reference.

## Main statements

* `Segment.Interrupts` — text that a segment does not reach into
* `Segment.IsCut.append` — a segment in front of more text
* `Segment.ofText_append` — the segments of a text, and then those of what follows
* `Segment.ofText_char` — a sign or a blank is a segment by itself
-/

namespace CircuitExpr

namespace Segment

/-- Text that a segment does not reach into: a break, and no parenthesis behind blanks. -/
structure Interrupts (t : List Char) : Prop where
  head : ∀ c ∈ t.head?, Text.isBreak c = true
  paren : (t.dropWhile Text.isBlank).head? ≠ some '('

/-! ## One segment -/

section Interrupts

variable {s t cs after : List Char} {segment : Segment}

theorem Interrupts.not {p : Char → Bool} (ht : Interrupts t)
    (hp : ∀ c, Text.isBreak c = true → p c = false) : ∀ c ∈ t.head?, p c = false :=
  fun c hc => hp c (ht.head c hc)

theorem Interrupts.isNameChar (ht : Interrupts t) :
    ∀ c ∈ t.head?, Text.isNameChar c = false :=
  ht.not fun _ hc => (Text.isBreak_spec hc).1

theorem Interrupts.isLetter (ht : Interrupts t) : ∀ c ∈ t.head?, Text.isLetter c = false :=
  ht.not fun _ hc => (Text.isBreak_spec hc).2.1

theorem Interrupts.isDigit (ht : Interrupts t) : ∀ c ∈ t.head?, c.isDigit = false :=
  ht.not fun _ hc => (Text.isBreak_spec hc).2.2.1

theorem Interrupts.isMantissaChar (ht : Interrupts t) :
    ∀ c ∈ t.head?, Number.isMantissaChar c = false := by
  refine ht.not fun c hc => ?_
  obtain ⟨-, -, hdigit, hne⟩ := Text.isBreak_spec hc
  rw [Number.isMantissaChar, hdigit, beq_eq_false_iff_ne.mpr (hne '.' (by decide)), Bool.or_self]

theorem isBreak_of_isExponent (h : Number.IsExponent cs) : ∀ c ∈ cs, Text.isBreak c = false := by
  obtain ⟨e, sign, digits, rfl, he, hsign, -, hdigits⟩ := h
  intro c hc
  rw [Bool.eq_false_iff]
  intro hbreak
  obtain ⟨-, hletter, hdigit, hne⟩ := Text.isBreak_spec hbreak
  rcases List.mem_append.mp hc with hc | hc
  · rcases List.mem_cons.mp hc with rfl | hc
    · rcases he with rfl | rfl <;> exact absurd hletter (by decide +kernel)
    · rcases hsign with rfl | rfl | rfl
      · cases hc
      · exact hne '+' (by decide) (List.mem_singleton.mp hc)
      · exact hne '-' (by decide) (List.mem_singleton.mp hc)
  · rw [hdigits c hc] at hdigit
    cases hdigit

/-- What is free of breaks and does not end before the following text ends where that begins. -/
theorem Interrupts.isPrefix (ht : Interrupts t) (hcs : ∀ c ∈ cs, Text.isBreak c = false)
    (h : cs <+: s ++ t) : cs <+: s := by
  rcases List.prefix_or_prefix_of_prefix h (List.prefix_append s t) with hshort | ⟨more, rfl⟩
  · exact hshort
  · cases more with
    | nil => exact (List.append_nil s).symm ▸ List.prefix_rfl
    | cons c more =>
      obtain ⟨rest, rfl⟩ := (List.prefix_append_right_inj s).mp h
      have hbreak := ht.head c rfl
      rw [hcs c (by simp)] at hbreak
      cases hbreak

/-- A number goes as far as before: not even an exponent is completed by what follows. -/
theorem Interrupts.isCut {mantissa exponent letters : List Char} (ht : Interrupts t)
    (h : Number.IsCut mantissa exponent letters after) :
    Number.IsCut mantissa exponent letters (after ++ t) where
  mantissa := h.mantissa
  mantissa_end := by
    have hend := head_append h.mantissa_end ht.isMantissaChar
    rwa [List.append_assoc, List.append_assoc] at hend
  exponent := by
    rw [← List.append_assoc]
    rcases h.exponent with ⟨hexponent, hend⟩ | ⟨hnil, hnone⟩
    · exact .inl ⟨hexponent, head_append hend ht.isDigit⟩
    · refine .inr ⟨hnil, fun cs hcs hprefix => ?_⟩
      exact hnone cs hcs (ht.isPrefix (isBreak_of_isExponent hcs) hprefix)
  letters := h.letters
  letters_end := head_append h.letters_end ht.isLetter

theorem Interrupts.opensNumber (ht : Interrupts t) (c : Char) (s : List Char) :
    Segment.opensNumber c (s ++ t) = Segment.opensNumber c s := by
  unfold Segment.opensNumber
  cases s with
  | cons d rest => rfl
  | nil =>
    cases t with
    | nil => rfl
    | cons d rest => simp [ht.isDigit d rfl]

theorem Interrupts.opensParen (ht : Interrupts t) (h : OpensParen (s ++ t)) : OpensParen s := by
  rw [opensParen_iff, List.dropWhile_append] at h
  split at h
  · exact absurd h ht.paren
  · next hne =>
    rw [List.isEmpty_iff] at hne
    exact opensParen_iff.mpr ((head_append_of_ne_nil hne).mp h)

/-- **A segment in front of more text** is the same: a word stays a word, a number has its end, and
a reference is closed already. -/
theorem IsCut.append (h : segment.IsCut after) (ht : Interrupts t) :
    segment.IsCut (after ++ t) := by
  cases h with
  | word start chars ends plain =>
    exact .word start chars (head_append ends ht.isNameChar) (plain.imp_right (mt ht.opensParen))
  | reference start chars hkind hblanks hopen he =>
    exact .reference start chars hkind hblanks hopen he
  | literal source start opens cut value =>
    refine .literal source start ?_ (ht.isCut cut) value
    rw [← List.append_assoc, ht.opensNumber, opens]
  | char start opens => exact .char start (by rw [ht.opensNumber, opens])

end Interrupts

/-! ## All segments -/

/-- **A text by itself, and then what follows.** -/
theorem ofText_append {s t : List Char} {segments : List Segment} (h : ofText s = .ok segments)
    (ht : Interrupts t) : ofText (s ++ t) = (ofText t).map (segments ++ ·) := by
  rw [ofText_eq_ok_iff] at h
  induction segments generalizing s with
  | nil =>
    obtain rfl := h.source
    exact (map_nil_append _).symm
  | cons segment more ih =>
    obtain ⟨rfl, hcut, hmore⟩ := segmentation_cons_iff.mp h
    rw [List.append_assoc, ofText_of_isCut (hcut.append ht), ih hmore, map_cons_append]

/-- A sign or a blank is a segment by itself. -/
theorem ofText_char {c : Char} (h : Text.isBreak c = true ∨ c = '-' ∨ c = '!') (t : List Char) :
    ofText (c :: t) = (ofText t).map (.char c :: ·) := by
  have hspec : Text.isNameChar c = false ∧ c.isDigit = false ∧ c ≠ '.' := by
    rcases h with h | rfl | rfl
    · obtain ⟨hname, -, hdigit, hne⟩ := Text.isBreak_spec h
      exact ⟨hname, hdigit, hne '.' (by decide)⟩
    · decide +kernel
    · decide +kernel
  obtain ⟨hname, hdigit, hpoint⟩ := hspec
  have hstart : Text.isNameStart c = false := by
    rw [Bool.eq_false_iff]
    intro hstart
    rw [Text.isNameChar_of_isNameStart hstart] at hname
    cases hname
  have hnumber : opensNumber c t = false := by simp [opensNumber, hdigit, hpoint]
  exact ofText_of_isCut (.char hstart hnumber)

end Segment

end CircuitExpr
