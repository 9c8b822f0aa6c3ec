import Mathlib
import CircuitExpr.Grammar.Segment
import CircuitExpr.Proofs.Evaluation.Outcome

/-!
# How a text is cut into segments

What scanning for the end of a segment takes from a text and what it leaves, and the row of
segments that comes of it. Neither blanks nor power signs belong to the names and numbers that are
scanned for.

## Main statements

* `Text.isBreak_spec` — neither blanks nor power signs belong to names or numbers
* `takeWhile_append_of_forall`, `dropWhile_append_of_forall` — a scan that stops where it has to
* `Segment.ofText_cons`, `Segment.ofText_cons_eq_ok` — the first segment, and then the others
-/

namespace CircuitExpr

/-! ## Characters -/

namespace Text

/-- A blank or a power sign: what may stand behind an operand of a power. -/
def isBreak (c : Char) : Bool := isBlank c || c == '^'

/-- The members of a set of code points. -/
theorem mem_of_inRanges {ranges : List (Nat × Nat)} {n : Nat} (h : inRanges ranges n = true) :
    n ∈ ranges.flatMap fun range => List.range' range.1 (range.2 + 1 - range.1) := by
  induction ranges with
  | nil => exact nomatch h
  | cons range rest ih =>
    obtain ⟨first, last⟩ := range
    rw [inRanges] at h
    rw [List.flatMap_cons, List.mem_append]
    split at h
    · exact nomatch h
    · split at h
      · exact .inl (List.mem_range'_1.mpr (by omega))
      · exact .inr (ih h)

/-- **Neither blanks nor power signs belong to names or numbers.** -/
theorem isBreak_spec {c : Char} (h : isBreak c = true) :
    isNameChar c = false ∧ isLetter c = false ∧ c.isDigit = false ∧
      ∀ d ∈ ['.', '+', '-', '(', '_'], c ≠ d := by
  have hcode : c.toNat ∈ 0x5E :: blankRanges.flatMap fun range =>
      List.range' range.1 (range.2 + 1 - range.1) := by
    simp only [isBreak, Bool.or_eq_true, beq_iff_eq] at h
    rcases h with h | rfl
    · exact List.mem_cons_of_mem _ (mem_of_inRanges h)
    · exact List.mem_cons_self
  have hall : ∀ n ∈ 0x5E :: blankRanges.flatMap fun range =>
      List.range' range.1 (range.2 + 1 - range.1),
      inRanges alphabeticRanges n = false ∧ inRanges numeralRanges n = false ∧
        ¬ (48 ≤ n ∧ n ≤ 57) ∧ n ∉ ['.', '+', '-', '(', '_'].map Char.toNat := by
    decide +kernel
  obtain ⟨hletter, hnumeral, hdigit, hothers⟩ := hall _ hcode
  have hne : ∀ d ∈ ['.', '+', '-', '(', '_'], c ≠ d := by
    rintro d hd rfl
    exact hothers (List.mem_map_of_mem hd)
  refine ⟨?_, hletter, ?_, hne⟩
  · have hunderscore : (c == '_') = false := beq_eq_false_iff_ne.mpr (hne '_' (by decide))
    simp [isNameChar, isLetter, isNumeral, hletter, hnumeral, hunderscore]
  · rw [Bool.eq_false_iff]
    intro hc
    exact hdigit (Char.isDigit_iff_toNat.mp hc)

end Text

/-! ## Where a scan for the end of a segment stops -/

section Scans

variable {p : Char → Bool} {s t : List Char}

/-- Nothing more is taken from text that begins otherwise. -/
theorem takeWhile_append_of_head (h : ∀ c ∈ t.head?, p c = false) :
    (s ++ t).takeWhile p = s.takeWhile p := by
  induction s with
  | nil =>
    cases t with
    | nil => rfl
    | cons c rest => simp [h c rfl]
  | cons c rest ih => simp [List.takeWhile_cons, ih]

theorem dropWhile_append_of_head (h : ∀ c ∈ t.head?, p c = false) :
    (s ++ t).dropWhile p = s.dropWhile p ++ t := by
  induction s with
  | nil =>
    cases t with
    | nil => rfl
    | cons c rest => simp [h c rfl]
  | cons c rest ih =>
    rw [List.cons_append, List.dropWhile_cons, List.dropWhile_cons, ih]
    split
    · rfl
    · rw [List.cons_append]

theorem takeWhile_append_of_forall (hs : ∀ c ∈ s, p c = true) (ht : ∀ c ∈ t.head?, p c = false) :
    (s ++ t).takeWhile p = s := by
  rw [takeWhile_append_of_head ht, List.takeWhile_eq_self_iff]
  exact hs

theorem dropWhile_append_of_forall (hs : ∀ c ∈ s, p c = true) (ht : ∀ c ∈ t.head?, p c = false) :
    (s ++ t).dropWhile p = t := by
  rw [dropWhile_append_of_head ht, List.dropWhile_eq_nil_iff.mpr hs, List.nil_append]

/-- What is left begins with a character that was not to be taken. -/
theorem head_dropWhile (p : Char → Bool) (s : List Char) :
    ∀ c ∈ (s.dropWhile p).head?, p c = false := by
  intro c hc
  have hnot := List.head?_dropWhile_not p s
  rwa [Option.mem_def.mp hc] at hnot

theorem head_append (hs : ∀ c ∈ s.head?, p c = false) (ht : ∀ c ∈ t.head?, p c = false) :
    ∀ c ∈ (s ++ t).head?, p c = false := by
  cases s with
  | nil => exact ht
  | cons d rest => exact hs

theorem head_append_of_ne_nil {c : Char} (hs : s ≠ []) : c ∈ (s ++ t).head? ↔ c ∈ s.head? := by
  cases s with
  | nil => exact absurd rfl hs
  | cons d rest => rfl

end Scans

/-! ## Results with a list in front -/

section Front

variable {ε α : Type}

theorem map_nil_append (x : Except ε (List α)) : x.map ([] ++ ·) = x := by
  cases x <;> rfl

theorem map_append_append (xs ys : List α) (x : Except ε (List α)) :
    (x.map (ys ++ ·)).map (xs ++ ·) = x.map (xs ++ ys ++ ·) := by
  cases x with
  | error e => rfl
  | ok zs => exact congrArg Except.ok (List.append_assoc xs ys zs).symm

theorem map_cons_append (x : α) (ys : List α) (z : Except ε (List α)) :
    (z.map (ys ++ ·)).map (x :: ·) = z.map (x :: ys ++ ·) :=
  map_append_append [x] ys z

end Front

/-! ## All segments -/

namespace Segment

variable {s : List Char}

theorem ofText_cons {c : Char} {rest after : List Char} {segment : Segment}
    (h : next c rest = .ok (segment, after)) :
    ofText (c :: rest) = (ofText after).map (segment :: ·) := by
  rw [ofText]
  split
  · next he => cases he.symm.trans h
  · next segment' after' hok =>
    cases hok.symm.trans h
    cases ofText after <;> rfl

/-- A text that is cut into segments begins with one of them, and the rest is cut as well. -/
theorem ofText_cons_eq_ok {c : Char} {rest : List Char} {segments : List Segment}
    (h : ofText (c :: rest) = .ok segments) :
    ∃ segment after more, next c rest = .ok (segment, after) ∧ ofText after = .ok more ∧
      segments = segment :: more := by
  cases hnext : next c rest with
  | error e =>
    rw [ofText] at h
    split at h
    · cases h
    · next hok => cases hok.symm.trans hnext
  | ok r =>
    obtain ⟨segment, after⟩ := r
    rw [ofText_cons hnext] at h
    obtain ⟨more, hmore, rfl⟩ := map_eq_ok h
    exact ⟨segment, after, more, rfl, hmore, rfl⟩

/-- There are no more segments than characters. -/
theorem length_ofText_le {segments : List Segment} (h : ofText s = .ok segments) :
    segments.length ≤ s.length := by
  induction hn : s.length using Nat.strong_induction_on generalizing s segments with
  | _ n ih =>
    cases s with
    | nil =>
      rw [ofText] at h
      cases h
      exact Nat.zero_le n
    | cons c rest =>
      obtain ⟨segment, after, more, hnext, hmore, rfl⟩ := ofText_cons_eq_ok h
      have hshort : after.length < n := hn ▸ next_length hnext
      exact (Nat.succ_le_succ (ih _ hshort hmore rfl)).trans hshort

end Segment

end CircuitExpr
