import Mathlib
import CircuitExpr.Grammar.Lifted
import CircuitExpr.Proofs.Grammar.Segments

/-!
# What lifting does to a text

A text that can be lifted falls into segments that stand one behind another and leave nothing out.
Which segments these are is said here by what they look like and by what stands behind them, and
not by how they are scanned for: a name ends where no character of a name follows, a number goes on
as long as it can, and a reference goes to the first parenthesis that closes.

The lifted text is the row of these segments, in which each number and each reference has been
replaced by a name with its index. An index is the count of what was lifted before.

## Main statements

* `Number.IsCut`, `Number.split_eq_iff` — where a number ends
* `Segment.IsCut`, `Segment.next_eq_ok_iff` — the first segment of a text
* `Segment.Segmentation`, `Segment.ofText_eq_ok_iff` — all segments of a text
* `Lifted.Replaces`, `Lifted.ofText_lossless` — the lifted text and its entries
-/

namespace CircuitExpr

/-! ## Numbers -/

namespace Number

/-- An exponent: `e` or `E`, a sign or none, and at least one digit. -/
def IsExponent (cs : List Char) : Prop :=
  ∃ e sign digits, cs = e :: sign ++ digits ∧ (e = 'e' ∨ e = 'E') ∧
    (sign = [] ∨ sign = ['+'] ∨ sign = ['-']) ∧ digits ≠ [] ∧ ∀ c ∈ digits, c.isDigit = true

/-- The parts of a number, with what stands behind it: each of them is as long as it can be. -/
structure IsCut (mantissa exponent letters after : List Char) : Prop where
  mantissa : ∀ c ∈ mantissa, isMantissaChar c = true
  mantissa_end : ∀ c ∈ (exponent ++ (letters ++ after)).head?, isMantissaChar c = false
  exponent : IsExponent exponent ∧ (∀ c ∈ (letters ++ after).head?, c.isDigit = false) ∨
    exponent = [] ∧ ∀ cs, IsExponent cs → ¬ cs <+: letters ++ after
  letters : ∀ c ∈ letters, Text.isLetter c = true
  letters_end : ∀ c ∈ after.head?, Text.isLetter c = false

section Exponent

variable {cs t s : List Char}

theorem takeSign_of_sign {sign digits : List Char}
    (hsign : sign = [] ∨ sign = ['+'] ∨ sign = ['-'])
    (hdigits : ∀ c ∈ digits.head?, c.isDigit = true) :
    takeSign (sign ++ digits) = (sign, digits) := by
  rcases hsign with rfl | rfl | rfl
  · cases digits with
    | nil => rfl
    | cons d rest =>
      have hne : ∀ c, c.isDigit = false → (d == c) = false := by
        intro c hc
        rw [beq_eq_false_iff_ne]
        rintro rfl
        exact absurd (hdigits d rfl) (by rw [hc]; decide)
      simp [takeSign, hne '+' rfl, hne '-' rfl]
  · rfl
  · rfl

/-- An exponent is taken as far as its digits go. -/
theorem IsExponent.takeExponent (h : IsExponent cs) (ht : ∀ c ∈ t.head?, c.isDigit = false) :
    takeExponent (cs ++ t) = (cs, t) := by
  obtain ⟨e, sign, digits, rfl, he, hsign, hne, hdigits⟩ := h
  have hhead : ∀ c ∈ (digits ++ t).head?, c.isDigit = true := by
    intro c hc
    rw [head_append_of_ne_nil hne] at hc
    exact hdigits c (List.mem_of_mem_head? hc)
  have htake := takeWhile_append_of_forall hdigits ht
  have hletter : (e == 'e' || e == 'E') = true := by
    rcases he with rfl | rfl <;> rfl
  rw [List.append_assoc, List.cons_append, Number.takeExponent]
  simp only [takeSign_of_sign hsign hhead, htake, dropWhile_append_of_forall hdigits ht, hletter,
    Bool.true_and, Bool.not_eq_true', List.isEmpty_eq_false_iff.mpr hne, if_true]

/-- What is taken as an exponent is one, and it is taken as a whole; nothing is taken only where
there is none. -/
theorem takeExponent_cases (s : List Char) :
    (IsExponent (takeExponent s).1 ∧ ∀ c ∈ (takeExponent s).2.head?, c.isDigit = false) ∨
      takeExponent s = ([], s) ∧ ∀ cs, IsExponent cs → ¬ cs <+: s := by
  by_cases hexponent : ∃ cs, IsExponent cs ∧ cs <+: s
  · obtain ⟨cs, hcs, t, rfl⟩ := hexponent
    -- the exponent may go on in what follows, by more digits
    obtain ⟨e, sign, digits, rfl, he, hsign, hne, hdigits⟩ := hcs
    have hlong : IsExponent (e :: sign ++ (digits ++ t.takeWhile Char.isDigit)) := by
      refine ⟨e, sign, _, rfl, he, hsign, by simp [hne], fun c hc => ?_⟩
      rcases List.mem_append.mp hc with hc | hc
      · exact hdigits c hc
      · exact List.mem_takeWhile_imp hc
    have htake := hlong.takeExponent (head_dropWhile Char.isDigit t)
    have htext : e :: sign ++ (digits ++ t.takeWhile Char.isDigit) ++ t.dropWhile Char.isDigit =
        e :: sign ++ digits ++ t := by
      simp only [List.append_assoc, List.takeWhile_append_dropWhile]
    rw [htext] at htake
    rw [htake]
    exact .inl ⟨hlong, head_dropWhile Char.isDigit t⟩
  · refine .inr ⟨?_, fun cs hcs hprefix => hexponent ⟨cs, hcs, hprefix⟩⟩
    cases s with
    | nil => rfl
    | cons e rest =>
      rw [takeExponent]
      simp only
      refine if_neg fun htaken => hexponent ?_
      rw [Bool.and_eq_true, Bool.or_eq_true, beq_iff_eq, beq_iff_eq, Bool.not_eq_true',
        List.isEmpty_eq_false_iff] at htaken
      refine ⟨e :: (takeSign rest).1 ++ (takeSign rest).2.takeWhile Char.isDigit,
        ⟨e, _, _, rfl, htaken.1, ?_, htaken.2, fun c hc => List.mem_takeWhile_imp hc⟩,
        (takeSign rest).2.dropWhile Char.isDigit, ?_⟩
      · cases rest with
        | nil => exact .inl rfl
        | cons c rest =>
          rw [takeSign]
          split
          · next hsign =>
            rw [Bool.or_eq_true, beq_iff_eq, beq_iff_eq] at hsign
            rcases hsign with rfl | rfl
            · exact .inr (.inl rfl)
            · exact .inr (.inr rfl)
          · exact .inl rfl
      · rw [List.append_assoc, List.takeWhile_append_dropWhile, List.cons_append, takeSign_append]

end Exponent

/-- **A number is cut where none of its parts can go on.** -/
theorem split_eq_iff {s digits letters after : List Char} :
    split s = (digits, letters, after) ↔
      s = digits ++ (letters ++ after) ∧
        ∃ mantissa exponent, digits = mantissa ++ exponent ∧
          IsCut mantissa exponent letters after := by
  constructor
  · intro h
    have happend := split_append s
    rw [h] at happend
    have hparts : split s =
        (s.takeWhile isMantissaChar ++ (takeExponent (s.dropWhile isMantissaChar)).1,
          (takeExponent (s.dropWhile isMantissaChar)).2.takeWhile Text.isLetter,
          (takeExponent (s.dropWhile isMantissaChar)).2.dropWhile Text.isLetter) := rfl
    rw [hparts] at h
    have hexponent := takeExponent_append (s.dropWhile isMantissaChar)
    have hcases := takeExponent_cases (s.dropWhile isMantissaChar)
    generalize takeExponent (s.dropWhile isMantissaChar) = taken at h hexponent hcases
    obtain ⟨exponent, rest⟩ := taken
    obtain ⟨hdigits, hrest⟩ := Prod.mk.inj h
    obtain ⟨rfl, rfl⟩ := Prod.mk.inj hrest
    refine ⟨happend.symm, s.takeWhile isMantissaChar, exponent, hdigits.symm,
      fun c hc => List.mem_takeWhile_imp hc, ?_, ?_, fun c hc => List.mem_takeWhile_imp hc,
      head_dropWhile _ _⟩
    · rw [List.takeWhile_append_dropWhile, hexponent]
      exact head_dropWhile _ s
    · rw [List.takeWhile_append_dropWhile]
      rcases hcases with hcase | ⟨hnone, hcase⟩
      · exact .inl hcase
      · obtain ⟨rfl, rfl⟩ := Prod.mk.inj hnone
        exact .inr ⟨rfl, hcase⟩
  · rintro ⟨rfl, mantissa, exponent, rfl, hcut⟩
    have hexponent :
        takeExponent (exponent ++ (letters ++ after)) = (exponent, letters ++ after) := by
      rcases hcut.exponent with ⟨hexponent, hend⟩ | ⟨rfl, hnone⟩
      · exact hexponent.takeExponent hend
      · rcases takeExponent_cases (letters ++ after) with ⟨hsome, -⟩ | ⟨htake, -⟩
        · exact absurd ⟨_, takeExponent_append _⟩ (hnone _ hsome)
        · exact htake
    unfold split
    rw [List.append_assoc, takeWhile_append_of_forall hcut.mantissa hcut.mantissa_end,
      dropWhile_append_of_forall hcut.mantissa hcut.mantissa_end, hexponent]
    simp only
    rw [takeWhile_append_of_forall hcut.letters hcut.letters_end,
      dropWhile_append_of_forall hcut.letters hcut.letters_end]

end Number

/-! ## One segment -/

namespace Segment

/-- A parenthesis opens behind any number of blanks. -/
def OpensParen (s : List Char) : Prop :=
  ∃ blanks inner, s = blanks ++ '(' :: inner ∧ ∀ c ∈ blanks, Text.isBlank c = true

/-- A segment as it looks, and what stands behind it. -/
inductive IsCut : Segment → List Char → Prop where
  /-- A name that is no word of a reference, or that no parenthesis follows. -/
  | word {c : Char} {rest after : List Char} (start : Text.isNameStart c = true)
      (chars : ∀ d ∈ rest, Text.isNameChar d = true)
      (ends : ∀ d ∈ after.head?, Text.isNameChar d = false)
      (plain : referenceKind? (c :: rest) = none ∨ ¬ OpensParen after) :
      IsCut (.word (c :: rest)) after
  /-- A reference, from its word to the first parenthesis that closes. -/
  | reference {c : Char} {rest blanks arguments after : List Char} {kind : VariableKind}
      {quantity : Quantity} {e : Expr Float} (start : Text.isNameStart c = true)
      (chars : ∀ d ∈ rest, Text.isNameChar d = true)
      (kind_eq : referenceKind? (c :: rest) = some (kind, quantity))
      (blank : ∀ d ∈ blanks, Text.isBlank d = true) (open_ : ')' ∉ arguments)
      (expr : referenceExpr kind quantity arguments = .ok e) :
      IsCut (.reference (c :: rest ++ blanks ++ '(' :: arguments ++ [')']) e) after
  /-- A number, as long as it can be. -/
  | literal {c : Char} {rest mantissa exponent letters after : List Char} {x : Float}
      (source : mantissa ++ exponent ++ letters = c :: rest) (start : Text.isNameStart c = false)
      (opens : opensNumber c (rest ++ after) = true)
      (cut : Number.IsCut mantissa exponent letters after)
      (value : Number.value (mantissa ++ exponent) letters = .ok x) :
      IsCut (.literal (mantissa ++ exponent ++ letters) x) after
  /-- Any other character. -/
  | char {c : Char} {after : List Char} (start : Text.isNameStart c = false)
      (opens : opensNumber c after = false) : IsCut (.char c) after

variable {c : Char} {word rest s after : List Char} {segment : Segment}

theorem IsCut.source_ne_nil (h : segment.IsCut after) : segment.source ≠ [] := by
  cases h with
  | word | reference | char => exact List.cons_ne_nil _ _
  | literal source =>
    rw [Segment.source, source]
    exact List.cons_ne_nil _ _

theorem opensParen_iff : OpensParen s ↔ (s.dropWhile Text.isBlank).head? = some '(' := by
  constructor
  · rintro ⟨blanks, inner, rfl, hblanks⟩
    rw [dropWhile_append_of_forall hblanks]
    · rfl
    · rintro _ ⟨⟩
      decide +kernel
  · intro h
    obtain ⟨inner, hinner⟩ := List.head?_eq_some_iff.mp h
    refine ⟨s.takeWhile Text.isBlank, inner, ?_, fun c hc => List.mem_takeWhile_imp hc⟩
    rw [← hinner, List.takeWhile_append_dropWhile]

/-- A word that is no reference word, or that no parenthesis follows, stands for itself. -/
theorem ofWord_plain (h : referenceKind? word = none ∨ ¬ OpensParen rest) :
    ofWord word rest = .ok (.word word, rest) := by
  unfold ofWord
  split
  · next hkind hopen =>
    rcases h with h | h
    · cases hkind.symm.trans h
    · exact absurd (opensParen_iff.mpr (by rw [hopen]; rfl)) h
  · rfl

section Reference

variable {blanks inner arguments : List Char} {kind : VariableKind} {quantity : Quantity}

/-- Blanks end at a parenthesis. -/
theorem blanks_append (hblanks : ∀ c ∈ blanks, Text.isBlank c = true) (inner : List Char) :
    (blanks ++ '(' :: inner).takeWhile Text.isBlank = blanks ∧
      (blanks ++ '(' :: inner).dropWhile Text.isBlank = '(' :: inner := by
  have hhead : ∀ c ∈ ('(' :: inner).head?, Text.isBlank c = false := by
    rintro _ ⟨⟩
    decide +kernel
  exact ⟨takeWhile_append_of_forall hblanks hhead, dropWhile_append_of_forall hblanks hhead⟩

theorem ne_close_of_not_mem (h : ')' ∉ arguments) : ∀ c ∈ arguments, (c != ')') = true := by
  intro c hc
  rw [bne_iff_ne]
  rintro rfl
  exact h hc

/-- **A reference goes to the first parenthesis that closes.** -/
theorem ofWord_reference (hkind : referenceKind? word = some (kind, quantity))
    (hblanks : ∀ c ∈ blanks, Text.isBlank c = true) (hopen : ')' ∉ arguments)
    (after : List Char) :
    ofWord word (blanks ++ '(' :: (arguments ++ ')' :: after)) =
      (referenceExpr kind quantity arguments).map fun e =>
        (.reference (word ++ blanks ++ '(' :: arguments ++ [')']) e, after) := by
  obtain ⟨htake, hdrop⟩ := blanks_append hblanks (arguments ++ ')' :: after)
  have hclose : ∀ c ∈ (')' :: after).head?, (c != ')') = false := by
    rintro _ ⟨⟩
    rfl
  have hall := ne_close_of_not_mem hopen
  unfold ofWord
  simp only [hkind, htake, hdrop, takeWhile_append_of_forall hall hclose,
    dropWhile_append_of_forall hall hclose]

/-- A reference has to be closed. -/
theorem ofWord_unclosed (hkind : referenceKind? word = some (kind, quantity))
    (hblanks : ∀ c ∈ blanks, Text.isBlank c = true) (hinner : ')' ∉ inner) :
    ofWord word (blanks ++ '(' :: inner) = .error (.reference (String.ofList word)) := by
  obtain ⟨-, hdrop⟩ := blanks_append hblanks inner
  have hnone := List.dropWhile_eq_nil_iff.mpr (ne_close_of_not_mem hinner)
  unfold ofWord
  simp only [hkind, hdrop, hnone]

end Reference

/-- **A word opens a reference or stands for itself.** -/
theorem ofWord_eq_ok_iff : ofWord word rest = .ok (segment, after) ↔
    (segment = .word word ∧ after = rest ∧ (referenceKind? word = none ∨ ¬ OpensParen rest)) ∨
      ∃ blanks arguments kind quantity e,
        rest = blanks ++ '(' :: arguments ++ ')' :: after ∧
          segment = .reference (word ++ blanks ++ '(' :: arguments ++ [')']) e ∧
          referenceKind? word = some (kind, quantity) ∧ (∀ c ∈ blanks, Text.isBlank c = true) ∧
          ')' ∉ arguments ∧ referenceExpr kind quantity arguments = .ok e := by
  constructor
  · intro h
    by_cases hplain : referenceKind? word = none ∨ ¬ OpensParen rest
    · rw [ofWord_plain hplain] at h
      cases h
      exact .inl ⟨rfl, rfl, hplain⟩
    · obtain ⟨hsome, hopens⟩ := not_or.mp hplain
      obtain ⟨⟨kind, quantity⟩, hkind⟩ := Option.ne_none_iff_exists'.mp hsome
      obtain ⟨blanks, inner, rfl, hblanks⟩ := not_not.mp hopens
      by_cases hclose : ')' ∈ inner
      · obtain ⟨arguments, after', rfl, hopen⟩ := List.eq_append_cons_of_mem hclose
        rw [ofWord_reference hkind hblanks hopen] at h
        obtain ⟨e, he, hsegment⟩ := map_eq_ok h
        obtain ⟨rfl, rfl⟩ := Prod.mk.inj hsegment
        refine .inr ⟨blanks, arguments, kind, quantity, e, ?_, rfl, hkind, hblanks, hopen, he⟩
        rw [List.append_assoc, List.cons_append]
      · rw [ofWord_unclosed hkind hblanks hclose] at h
        cases h
  · rintro (⟨rfl, rfl, hplain⟩ | ⟨blanks, arguments, kind, quantity, e, rfl, rfl, hkind, hblanks,
      hopen, he⟩)
    · exact ofWord_plain hplain
    · rw [List.append_assoc, List.cons_append, ofWord_reference hkind hblanks hopen, he]
      rfl

/-- **A number is what is read where a number can be cut.** -/
theorem ofNumber_eq_ok_iff : ofNumber s = .ok (segment, after) ↔
    ∃ mantissa exponent letters x, segment = .literal (mantissa ++ exponent ++ letters) x ∧
      s = mantissa ++ exponent ++ letters ++ after ∧
        Number.IsCut mantissa exponent letters after ∧
          Number.value (mantissa ++ exponent) letters = .ok x := by
  unfold ofNumber
  constructor
  · intro h
    generalize hsplit : Number.split s = parts at h
    obtain ⟨digits, letters, after'⟩ := parts
    obtain ⟨htext, mantissa, exponent, rfl, hcut⟩ := Number.split_eq_iff.mp hsplit
    obtain ⟨x, hx, hsegment⟩ := map_eq_ok h
    obtain ⟨rfl, rfl⟩ := Prod.mk.inj hsegment
    exact ⟨mantissa, exponent, letters, x, rfl, by rw [htext, ← List.append_assoc], hcut, hx⟩
  · rintro ⟨mantissa, exponent, letters, x, rfl, rfl, hcut, hx⟩
    have hsplit := Number.split_eq_iff.mpr
      ⟨List.append_assoc (mantissa ++ exponent) letters after, mantissa, exponent, rfl, hcut⟩
    simp only [hsplit, hx]
    rfl

/-- A number has its first character, which belongs to its mantissa. -/
theorem chars_ne_nil_of_isCut {mantissa exponent letters : List Char}
    (hopens : opensNumber c rest = true) (hcut : Number.IsCut mantissa exponent letters after)
    (htext : c :: rest = mantissa ++ exponent ++ letters ++ after) :
    mantissa ++ exponent ++ letters ≠ [] := by
  intro hnil
  rw [hnil, List.nil_append] at htext
  obtain ⟨hdigits, rfl⟩ := List.append_eq_nil_iff.mp hnil
  obtain ⟨rfl, rfl⟩ := List.append_eq_nil_iff.mp hdigits
  have hend := hcut.mantissa_end c (by rw [← htext]; rfl)
  rw [Number.isMantissaChar, Bool.or_eq_false_iff] at hend
  rw [opensNumber, hend.1, hend.2] at hopens
  cases hopens

theorem isCut_of_next (h : next c rest = .ok (segment, after)) : segment.IsCut after := by
  unfold next at h
  split at h
  · next hstart =>
    have hname : ∀ d ∈ rest.takeWhile Text.isNameChar, Text.isNameChar d = true :=
      fun d hd => List.mem_takeWhile_imp hd
    obtain ⟨rfl, rfl, hplain⟩ | ⟨blanks, arguments, kind, quantity, e, -, rfl, hkind, hblanks,
      hopen, he⟩ := ofWord_eq_ok_iff.mp h
    · exact .word hstart hname (head_dropWhile _ rest) hplain
    · exact .reference hstart hname hkind hblanks hopen he
  · next hstart =>
    rw [Bool.not_eq_true] at hstart
    split at h
    · next hopens =>
      obtain ⟨mantissa, exponent, letters, x, rfl, htext, hcut, hx⟩ := ofNumber_eq_ok_iff.mp h
      have hne := chars_ne_nil_of_isCut hopens hcut htext
      obtain ⟨d, more, hchars⟩ := List.exists_cons_of_ne_nil hne
      rw [hchars] at htext
      obtain ⟨rfl, rfl⟩ := List.cons.inj htext
      exact .literal hchars hstart hopens hcut hx
    · next hopens =>
      cases h
      exact .char hstart (Bool.not_eq_true _ ▸ hopens)

theorem IsCut.next_eq (h : segment.IsCut after) (hsource : segment.source ++ after = c :: rest) :
    next c rest = .ok (segment, after) := by
  cases h with
  | @word _ name _ start chars ends plain =>
    have htext : name ++ after = rest := (List.cons.inj hsource).2
    obtain rfl := (List.cons.inj hsource).1
    rw [next, if_pos start, ← htext, takeWhile_append_of_forall chars ends,
      dropWhile_append_of_forall chars ends]
    exact ofWord_eq_ok_iff.mpr (.inl ⟨rfl, rfl, plain⟩)
  | @reference _ name blanks arguments _ kind quantity e start chars hkind hblanks hopen he =>
    have htext : name ++ (blanks ++ '(' :: arguments ++ ')' :: after) = rest := by
      simpa using (List.cons.inj hsource).2
    obtain rfl := (List.cons.inj hsource).1
    -- neither a blank nor the parenthesis belongs to the word
    have hends : ∀ d ∈ (blanks ++ '(' :: arguments ++ ')' :: after).head?,
        Text.isNameChar d = false := by
      intro d hd
      cases blanks with
      | nil =>
        cases hd
        decide +kernel
      | cons b more =>
        obtain rfl : b = d := Option.some.inj hd
        have hbreak : Text.isBreak b = true := by
          rw [Text.isBreak, hblanks b List.mem_cons_self, Bool.true_or]
        exact (Text.isBreak_spec hbreak).1
    rw [next, if_pos start, ← htext, takeWhile_append_of_forall chars hends,
      dropWhile_append_of_forall chars hends]
    exact ofWord_eq_ok_iff.mpr
      (.inr ⟨blanks, arguments, kind, quantity, e, rfl, rfl, hkind, hblanks, hopen, he⟩)
  | @literal d more mantissa exponent letters _ x source start opens cut value =>
    have htext : mantissa ++ exponent ++ letters ++ after = c :: rest := hsource
    obtain ⟨rfl, rfl⟩ : d = c ∧ more ++ after = rest := by
      rw [source] at htext
      exact List.cons.inj htext
    rw [next, if_neg (by rw [start]; decide), if_pos opens]
    exact ofNumber_eq_ok_iff.mpr ⟨mantissa, exponent, letters, x, rfl, htext.symm, cut, value⟩
  | char start opens =>
    obtain ⟨rfl, rfl⟩ := List.cons.inj hsource
    rw [next, if_neg (by rw [start]; decide)]
    exact if_neg (Bool.eq_false_iff.mp opens)

/-- **The first segment of a text** is what looks like one and can stand in front of the rest. -/
theorem next_eq_ok_iff : next c rest = .ok (segment, after) ↔
    segment.source ++ after = c :: rest ∧ segment.IsCut after :=
  ⟨fun h => ⟨next_source h, isCut_of_next h⟩, fun ⟨hsource, h⟩ => h.next_eq hsource⟩

/-! ## All segments -/

/-- A segment is the first one in front of every text that it can stand in front of. -/
theorem ofText_of_isCut (h : segment.IsCut after) :
    ofText (segment.source ++ after) = (ofText after).map (segment :: ·) := by
  obtain ⟨c, rest, hsource⟩ := List.exists_cons_of_ne_nil
    (List.append_ne_nil_of_left_ne_nil h.source_ne_nil after)
  rw [hsource]
  exact ofText_cons (h.next_eq hsource)

/-- Segments that stand one behind another, leave nothing out and cannot be cut otherwise. -/
structure Segmentation (s : List Char) (segments : List Segment) : Prop where
  source : segments.flatMap Segment.source = s
  ne_nil : ∀ segment ∈ segments, segment.source ≠ []
  isCut : ∀ before segment after, segments = before ++ segment :: after →
    segment.IsCut (after.flatMap Segment.source)

variable {segments : List Segment}

theorem segmentation_nil : Segmentation [] [] where
  source := rfl
  ne_nil := nofun
  isCut before _ _ h := absurd h (by simp)

theorem segmentation_cons_iff {s : List Char} : Segmentation s (segment :: segments) ↔
    segment.source ++ segments.flatMap Segment.source = s ∧
      segment.IsCut (segments.flatMap Segment.source) ∧
        Segmentation (segments.flatMap Segment.source) segments := by
  constructor
  · intro h
    refine ⟨h.source, h.isCut [] segment segments rfl, rfl,
      fun x hx => h.ne_nil x (List.mem_cons_of_mem _ hx), fun before x after heq => ?_⟩
    exact h.isCut (segment :: before) x after (by rw [heq, List.cons_append])
  · rintro ⟨hsource, hcut, hrest⟩
    refine ⟨hsource, List.forall_mem_cons.mpr ⟨hcut.source_ne_nil, hrest.ne_nil⟩,
      fun before x after heq => ?_⟩
    cases before with
    | nil =>
      obtain ⟨rfl, rfl⟩ := List.cons.inj heq
      exact hcut
    | cons _ before => exact hrest.isCut before x after (List.cons.inj heq).2

/-- **The segments of a text are its segmentation**, so there is one at most. -/
theorem ofText_eq_ok_iff : ofText s = .ok segments ↔ Segmentation s segments := by
  induction segments generalizing s with
  | nil =>
    constructor
    · intro h
      cases s with
      | nil => exact segmentation_nil
      | cons c rest =>
        obtain ⟨_, _, _, -, -, heq⟩ := ofText_cons_eq_ok h
        exact nomatch heq
    · intro h
      obtain rfl := h.source
      rw [List.flatMap_nil, ofText]
  | cons segment more ih =>
    rw [segmentation_cons_iff, ← ih]
    constructor
    · intro h
      cases s with
      | nil =>
        rw [ofText] at h
        cases h
      | cons c rest =>
        obtain ⟨_, after, _, hnext, hmore, heq⟩ := ofText_cons_eq_ok h
        obtain ⟨rfl, rfl⟩ := List.cons.inj heq
        have hafter : more.flatMap Segment.source = after := (ih.mp hmore).source
        rw [hafter]
        exact ⟨(next_eq_ok_iff.mp hnext).1, (next_eq_ok_iff.mp hnext).2, hmore⟩
    · rintro ⟨rfl, hcut, hmore⟩
      rw [ofText_of_isCut hcut, hmore]
      rfl

end Segment

/-! ## The lifted text -/

namespace Lifted

/-- Numbers and references are what is lifted. -/
def isLiteral : Segment → Bool
  | .literal _ _ => true
  | _ => false

def isReference : Segment → Bool
  | .reference _ _ => true
  | _ => false

/-- What stands for a segment in the lifted text, the segments in front of it being given. -/
def replacement (before : List Segment) : Segment → List Char
  | .word chars => chars
  | .char c => [c]
  | .literal _ _ => "__lit".toList ++ (toString (before.countP isLiteral)).toList
  | .reference _ _ => "__ref".toList ++ (toString (before.countP isReference)).toList

/--
The numbers and references among segments are replaced by their names, and listed in their order:
as many of each as there are, and each at the index in its name.
-/
structure Replaces (segments : List Segment) (lifted : Lifted) : Prop where
  text : lifted.text =
    (segments.mapIdx fun i segment => replacement (segments.take i) segment).flatten
  literals : lifted.literals = segments.filterMap literal?
  references : lifted.references = segments.filterMap reference?
  literals_length : lifted.literals.length = segments.countP isLiteral
  references_length : lifted.references.length = segments.countP isReference
  literal : ∀ before chars x after, segments = before ++ .literal chars x :: after →
    lifted.literals[before.countP isLiteral]? = some x
  reference : ∀ before chars e after, segments = before ++ .reference chars e :: after →
    lifted.references[before.countP isReference]? = some e

variable {segments : List Segment} {s : List Char} {lifted : Lifted}

theorem length_filterMap_literal (segments : List Segment) :
    (segments.filterMap literal?).length = segments.countP isLiteral := by
  rw [List.length_filterMap_eq_countP]
  refine List.countP_congr fun segment _ => ?_
  cases segment <;> rfl

theorem length_filterMap_reference (segments : List Segment) :
    (segments.filterMap reference?).length = segments.countP isReference := by
  rw [List.length_filterMap_eq_countP]
  refine List.countP_congr fun segment _ => ?_
  cases segment <;> rfl

theorem placeholder_eq (stem : List Char) (n : Nat) :
    placeholder stem n = stem ++ (toString n).toList := by
  rw [placeholder, Nat.toString_eq_repr, Nat.repr, String.toList_ofList]

/-- What is written for segments behind others, which are counted on from. -/
theorem write_eq_flatten (before segments : List Segment) :
    write (before.countP isLiteral) (before.countP isReference) segments =
      (segments.mapIdx fun i segment =>
        replacement (before ++ segments.take i) segment).flatten := by
  induction segments generalizing before with
  | nil => rfl
  | cons segment rest ih =>
    have hrest := ih (before ++ [segment])
    rw [List.countP_append, List.countP_append] at hrest
    have hbefore : ∀ i, before ++ (segment :: rest).take (i + 1) =
        before ++ [segment] ++ rest.take i := by
      intro i
      rw [List.take_succ_cons, List.append_cons]
    rw [List.mapIdx_cons, List.flatten_cons, List.take_zero, List.append_nil]
    simp only [hbefore]
    rw [← hrest]
    cases segment with
    | word chars => rfl
    | char c => rfl
    | literal chars x => exact congrArg (· ++ _) (placeholder_eq _ _)
    | reference chars e => exact congrArg (· ++ _) (placeholder_eq _ _)

theorem ofSegments_replaces (segments : List Segment) :
    Replaces segments (ofSegments segments) where
  text := write_eq_flatten [] segments
  literals := rfl
  references := rfl
  literals_length := length_filterMap_literal segments
  references_length := length_filterMap_reference segments
  literal := by
    rintro before chars x after rfl
    show ((before ++ .literal chars x :: after).filterMap literal?)[_]? = _
    rw [List.filterMap_append, ← length_filterMap_literal, List.getElem?_append_right le_rfl,
      Nat.sub_self]
    rfl
  reference := by
    rintro before chars e after rfl
    show ((before ++ .reference chars e :: after).filterMap reference?)[_]? = _
    rw [List.filterMap_append, ← length_filterMap_reference, List.getElem?_append_right le_rfl,
      Nat.sub_self]
    rfl

theorem replaces_iff : Replaces segments lifted ↔ ofSegments segments = lifted := by
  constructor
  · intro h
    have hsegments := ofSegments_replaces segments
    obtain ⟨text, literals, references⟩ := lifted
    have htext := hsegments.text.trans h.text.symm
    have hliterals := hsegments.literals.trans h.literals.symm
    have hreferences := hsegments.references.trans h.references.symm
    exact congr (congrArg₂ Lifted.mk htext hliterals) hreferences
  · rintro rfl
    exact ofSegments_replaces segments

/--
**Lifting is a lossless segmentation.** A text is lifted exactly where it falls into segments, of
which there are no more than characters. What is lifted is then the same row of segments with the
names of numbers and references in their places, and the tables with the entries for these names.
-/
theorem ofText_lossless (s : List Char) (lifted : Lifted) : ofText s = .ok lifted ↔
    ∃ segments, Segment.Segmentation s segments ∧ segments.length ≤ s.length ∧
      Replaces segments lifted := by
  constructor
  · intro h
    obtain ⟨segments, hsegments, hlifted⟩ := map_eq_ok h
    exact ⟨segments, Segment.ofText_eq_ok_iff.mp hsegments, Segment.length_ofText_le hsegments,
      replaces_iff.mpr hlifted⟩
  · rintro ⟨segments, hsegments, -, hlifted⟩
    rw [ofText, Segment.ofText_eq_ok_iff.mpr hsegments]
    exact congrArg Except.ok (replaces_iff.mp hlifted)

end Lifted

end CircuitExpr
