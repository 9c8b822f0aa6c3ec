import Mathlib
import CircuitExpr.Grammar.Lifted

/-!
# Placeholders and their numbers

The same text gets other placeholders when there is text with numbers in front of it: the counts
begin higher. `Lifted.shift` renames placeholders accordingly, and the renamed ones stand for the
same expressions in what the whole text was lifted to.

## Main statements

* `Lifted.index?_placeholder` — the index in a placeholder is read back
* `Lifted.Extends`, `Lifted.expand_shift` — shifted placeholders stand for the same
-/

namespace CircuitExpr.Lifted

/-! ## Reading an index back -/

/-- The greatest index that is read back. -/
def maxIndex : Nat := 0xffffffffffffffff

theorem afterStem?_append (stem name : List Char) : afterStem? stem (stem ++ name) = some name := by
  induction stem with
  | nil => cases name <;> rfl
  | cons c rest ih => simpa [afterStem?] using ih

theorem afterStem?_eq_some {stem name rest : List Char} (h : afterStem? stem name = some rest) :
    name = stem ++ rest := by
  fun_induction afterStem? stem name with
  | case1 name => exact Option.some.inj h
  | case2 | case4 => cases h
  | case3 s stem c name hsame ih => rw [beq_iff_eq.mp hsame, ih h, List.cons_append]

theorem index?_of_not_prefix {stem name : List Char} (h : ¬ stem <+: name) :
    index? stem name = none := by
  have hafter : afterStem? stem name = none := by
    cases hafter : afterStem? stem name with
    | none => rfl
    | some rest => exact absurd ⟨rest, (afterStem?_eq_some hafter).symm⟩ h
  rw [index?, hafter]

/-- Behind the stem there are digits only. -/
theorem index?_eq_some {stem name : List Char} {n : Nat} (h : index? stem name = some n) :
    ∃ digits, name = stem ++ digits ∧ ∀ c ∈ digits, c.isDigit = true := by
  unfold index? at h
  split at h
  · next d ds hafter =>
    simp only at h
    split at h
    · next hdigits =>
      rw [Bool.and_eq_true] at hdigits
      exact ⟨d :: ds, afterStem?_eq_some hafter, List.all_eq_true.mp hdigits.1⟩
    · cases h
  · cases h

theorem natural_toDigits (n : Nat) : Decimal.natural (Nat.toDigits 10 n) = n :=
  Nat.ofDigitChars_ten_toDigits

theorem isDigit_of_mem_toDigits {n : Nat} {c : Char} (h : c ∈ Nat.toDigits 10 n) :
    c.isDigit = true :=
  Nat.isDigit_of_mem_toDigits (by decide) (by decide) h

/-- **The index in a placeholder is read back.** -/
theorem index?_placeholder {n : Nat} (h : n ≤ maxIndex) (stem : List Char) :
    index? stem (placeholder stem n) = some n := by
  unfold index? placeholder
  rw [afterStem?_append]
  have hvalue := natural_toDigits n
  have hdigits : (Nat.toDigits 10 n).all Char.isDigit = true :=
    List.all_eq_true.mpr fun c hc => isDigit_of_mem_toDigits hc
  cases hd : Nat.toDigits 10 n with
  | nil => exact absurd hd Nat.toDigits_ne_nil
  | cons d ds =>
    rw [hd] at hvalue hdigits
    simp only [hvalue, hdigits, Bool.true_and, decide_eq_true_eq]
    exact if_pos h

/-- An index that is too large is not. -/
theorem index?_placeholder_of_lt {n : Nat} (h : maxIndex < n) (stem : List Char) :
    index? stem (placeholder stem n) = none := by
  unfold index? placeholder
  rw [afterStem?_append]
  have hvalue := natural_toDigits n
  cases hd : Nat.toDigits 10 n with
  | nil => rfl
  | cons d ds =>
    rw [hd] at hvalue
    have hlarge : decide (n ≤ 0xffffffffffffffff) = false := decide_eq_false (Nat.not_le.mpr h)
    simp only [hvalue, hlarge, Bool.and_false]
    rfl

theorem literal_index?_reference (n : Nat) :
    index? literalStem (placeholder referenceStem n) = none := rfl

/-! ## Shifting -/

/-- Whether a name is read as a placeholder. -/
def isPlaceholder (name : List Char) : Bool :=
  (index? literalStem name).isSome || (index? referenceStem name).isSome

/-- The name with the counts begun higher; names that are no placeholders stay. -/
def shift (l r : Nat) (name : List Char) : List Char :=
  match index? literalStem name with
  | some index => placeholder literalStem (l + index)
  | none =>
    match index? referenceStem name with
    | some index => placeholder referenceStem (r + index)
    | none => name

variable {l r n : Nat} {name : List Char}

theorem index?_of_not_placeholder (h : isPlaceholder name = false) :
    index? literalStem name = none ∧ index? referenceStem name = none := by
  rwa [isPlaceholder, Bool.or_eq_false_iff, Option.isSome_eq_false_iff,
    Option.isSome_eq_false_iff, Option.isNone_iff_eq_none, Option.isNone_iff_eq_none] at h

theorem shift_of_not_placeholder (h : isPlaceholder name = false) : shift l r name = name := by
  obtain ⟨hliteral, hreference⟩ := index?_of_not_placeholder h
  rw [shift, hliteral, hreference]

/-- Other names are parameters. -/
theorem expand_of_not_placeholder (lifted : Lifted) (h : isPlaceholder name = false) :
    lifted.expand name = .ok (.var (.parameter (String.ofList name))) := by
  obtain ⟨hliteral, hreference⟩ := index?_of_not_placeholder h
  rw [expand, hliteral, hreference]

theorem shift_literal (h : n ≤ maxIndex) :
    shift l r (placeholder literalStem n) = placeholder literalStem (l + n) := by
  rw [shift, index?_placeholder h]

theorem shift_reference (h : n ≤ maxIndex) :
    shift l r (placeholder referenceStem n) = placeholder referenceStem (r + n) := by
  rw [shift, literal_index?_reference, index?_placeholder h]

/-- A table is found in a larger one from a given place on, at indices that are read back. -/
def Entries {α : Type} (whole : List α) (start : Nat) (part : List α) : Prop :=
  ∀ (i : Nat) (x : α), part[i]? = some x → whole[start + i]? = some x ∧ start + i ≤ maxIndex

theorem Entries.append {α : Type} {whole xs ys : List α} {start : Nat}
    (h : Entries whole start (xs ++ ys)) :
    Entries whole start xs ∧ Entries whole (start + xs.length) ys := by
  constructor
  · intro i x hx
    refine h i x ?_
    rw [List.getElem?_append_left (List.getElem?_eq_some_iff.mp hx).1, hx]
  · intro i y hy
    rw [Nat.add_assoc]
    refine h (xs.length + i) y ?_
    rw [List.getElem?_append_right (Nat.le_add_right _ _), Nat.add_sub_cancel_left, hy]

theorem Entries.refl {α : Type} {whole : List α} (h : whole.length ≤ maxIndex) :
    Entries whole 0 whole := by
  intro i x hx
  have hi := (List.getElem?_eq_some_iff.mp hx).1
  rw [Nat.zero_add]
  exact ⟨hx, by omega⟩

/-- What was lifted is in the larger tables, from given places on. -/
structure Extends (whole : Lifted) (l r : Nat) (part : Lifted) : Prop where
  literals : Entries whole.literals l part.literals
  references : Entries whole.references r part.references

/-- **A shifted placeholder stands for the same expression.** -/
theorem expand_shift {whole part : Lifted} (hparts : Extends whole l r part) {e : Expr Float}
    (h : expand part name = .ok e) : expand whole (shift l r name) = .ok e := by
  unfold expand at h
  unfold shift
  cases hliteral : index? literalStem name with
  | some index =>
    simp only [hliteral] at h ⊢
    cases hx : part.literals[index]? with
    | none =>
      simp only [hx] at h
      cases h
    | some x =>
      simp only [hx] at h
      obtain ⟨hwhole, hbound⟩ := hparts.literals index x hx
      rw [expand, index?_placeholder hbound]
      simp only [hwhole]
      exact h
  | none =>
    simp only [hliteral] at h ⊢
    cases hreference : index? referenceStem name with
    | some index =>
      simp only [hreference] at h ⊢
      cases hx : part.references[index]? with
      | none =>
        simp only [hx] at h
        cases h
      | some x =>
        simp only [hx] at h
        obtain ⟨hwhole, hbound⟩ := hparts.references index x hx
        rw [expand, literal_index?_reference, index?_placeholder hbound]
        simp only [hwhole]
        exact h
    | none =>
      simp only [hreference] at h ⊢
      rw [expand, hliteral, hreference]
      exact h

end CircuitExpr.Lifted
