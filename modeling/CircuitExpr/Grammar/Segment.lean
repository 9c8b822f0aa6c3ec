import CircuitExpr.Expr.Basic
import CircuitExpr.Grammar.Number
import CircuitExpr.Text.Blank

/-!
# Segments of a text

Numbers with units and circuit references are no matter of operators and parentheses. They are
cut out of the text first: the text becomes a row of segments, and in each a name, a single
character, a number or a reference.

## References

The word `v` or `i`, in any case and with a suffix for a quantity or without, followed by
parentheses, is a circuit reference. Node names are free text up to the closing parenthesis; they
may be numbers. A voltage may name two nodes and is their difference.

## Termination

Each segment takes at least its first character (`next_length`).
-/

namespace CircuitExpr

/-- A part of a text. -/
inductive Segment where
  | word (chars : List Char)
  | char (c : Char)
  | literal (chars : List Char) (value : Float)
  | reference (chars : List Char) (e : Expr Float)

namespace Segment

/-- The characters that a segment takes up. -/
def source : Segment → List Char
  | word chars => chars
  | char c => [c]
  | literal chars _ => chars
  | reference chars _ => chars

/-! ## References -/

/-- What a reference word asks for. -/
def referenceKind? (word : List Char) : Option (VariableKind × Quantity) :=
  match Text.lowerChars word with
  | 'v' :: suffix => (Quantity.ofSuffix? (String.ofList suffix)).map fun q => (.voltage, q)
  | 'i' :: suffix => (Quantity.ofSuffix? (String.ofList suffix)).map fun q => (.current, q)
  | _ => none

/-- The parts of a text between commas. -/
def splitCommas : List Char → List (List Char)
  | [] => [[]]
  | c :: rest =>
    if c == ',' then [] :: splitCommas rest
    else
      match splitCommas rest with
      | part :: parts => (c :: part) :: parts
      | [] => [[c]]

/-- The expression of a reference with these arguments. -/
def referenceExpr (kind : VariableKind) (quantity : Quantity) (arguments : List Char) :
    Except ReadError (Expr Float) :=
  let v (name : List Char) : Expr Float := .var ⟨String.ofList name, kind, quantity⟩
  match kind, (splitCommas arguments).map Text.trim with
  | .voltage, [positive, negative] =>
    if positive.isEmpty || negative.isEmpty then .error (.reference (String.ofList arguments))
    else .ok (.binary .sub (v positive) (v negative))
  | _, [name] =>
    if name.isEmpty then .error (.reference (String.ofList arguments)) else .ok (v name)
  | _, _ => .error (.reference (String.ofList arguments))

/-- A reference that a word opens, or the word itself. -/
def ofWord (word rest : List Char) : Except ReadError (Segment × List Char) :=
  match referenceKind? word, rest.dropWhile Text.isBlank with
  | some (kind, quantity), '(' :: inner =>
    match inner.dropWhile (· != ')') with
    | [] => .error (.reference (String.ofList word))
    | close :: after =>
      (referenceExpr kind quantity (inner.takeWhile (· != ')'))).map fun e =>
        (.reference
          (word ++ rest.takeWhile Text.isBlank ++ '(' :: inner.takeWhile (· != ')') ++ [close]) e,
          after)
  | _, _ => .ok (.word word, rest)

/-! ## Numbers -/

/-- Whether a number begins here: at a digit, or at a point before one. -/
def opensNumber (c : Char) (rest : List Char) : Bool :=
  c.isDigit || (c == '.' && (rest.head?.map Char.isDigit).getD false)

/-- The number in front of a text. -/
def ofNumber (s : List Char) : Except ReadError (Segment × List Char) :=
  let parts := Number.split s
  (Number.value parts.1 parts.2.1).map fun x => (.literal (parts.1 ++ parts.2.1) x, parts.2.2)

/-! ## All segments -/

/-- The first segment of a text that begins with `c`, and what follows it. -/
def next (c : Char) (rest : List Char) : Except ReadError (Segment × List Char) :=
  if Text.isNameStart c then
    ofWord (c :: rest.takeWhile Text.isNameChar) (rest.dropWhile Text.isNameChar)
  else if opensNumber c rest then ofNumber (c :: rest)
  else .ok (.char c, rest)

theorem ofWord_source {word rest : List Char} {r : Segment × List Char}
    (h : ofWord word rest = .ok r) : r.1.source ++ r.2 = word ++ rest := by
  unfold ofWord at h
  split at h
  · next kind quantity inner hkind hinner =>
    split at h
    · cases h
    · next close after hafter =>
      cases he : referenceExpr kind quantity (inner.takeWhile (· != ')')) with
      | error e => rw [he] at h; cases h
      | ok e =>
        rw [he] at h
        have h1 := List.takeWhile_append_dropWhile (p := (· != ')')) (l := inner)
        have h2 := List.takeWhile_append_dropWhile (p := Text.isBlank) (l := rest)
        rw [hafter] at h1
        rw [hinner] at h2
        rw [← Except.ok.inj h]
        simp only [source, List.append_assoc, List.cons_append, List.nil_append]
        rw [h1, h2]
  · rw [← Except.ok.inj h]; rfl

theorem ofNumber_source {s : List Char} {r : Segment × List Char} (h : ofNumber s = .ok r) :
    r.1.source ++ r.2 = s := by
  unfold ofNumber at h
  cases hv : Number.value (Number.split s).1 (Number.split s).2.1 with
  | error e => simp only [hv] at h; cases h
  | ok x =>
    simp only [hv] at h
    rw [← Except.ok.inj h]
    show (Number.split s).1 ++ (Number.split s).2.1 ++ (Number.split s).2.2 = s
    rw [List.append_assoc, Number.split_append]

/-- A segment and what follows it make up the text. -/
theorem next_source {c : Char} {rest : List Char} {r : Segment × List Char}
    (h : next c rest = .ok r) : r.1.source ++ r.2 = c :: rest := by
  unfold next at h
  split at h
  · rw [ofWord_source h, List.cons_append, List.takeWhile_append_dropWhile]
  · split at h
    · exact ofNumber_source h
    · rw [← Except.ok.inj h]; rfl

theorem ofWord_source_ne_nil {word rest : List Char} {r : Segment × List Char}
    (hword : word ≠ []) (h : ofWord word rest = .ok r) : r.1.source ≠ [] := by
  unfold ofWord at h
  split at h
  · next kind quantity inner hkind hinner =>
    split at h
    · cases h
    · next close after hafter =>
      cases he : referenceExpr kind quantity (inner.takeWhile (· != ')')) with
      | error e => rw [he] at h; cases h
      | ok e =>
        rw [he] at h
        rw [← Except.ok.inj h]
        simp [source]
  · rw [← Except.ok.inj h]; exact hword

theorem ofNumber_source_ne_nil {c : Char} {rest : List Char} {r : Segment × List Char}
    (hc : opensNumber c rest = true) (h : ofNumber (c :: rest) = .ok r) : r.1.source ≠ [] := by
  have hm : Number.isMantissaChar c = true := by
    unfold opensNumber at hc
    unfold Number.isMantissaChar
    cases hd : c.isDigit <;> simp_all
  unfold ofNumber at h
  cases hv : Number.value (Number.split (c :: rest)).1 (Number.split (c :: rest)).2.1 with
  | error e => simp only [hv] at h; cases h
  | ok x =>
    simp only [hv] at h
    rw [← Except.ok.inj h]
    show (Number.split (c :: rest)).1 ++ (Number.split (c :: rest)).2.1 ≠ []
    simp [Number.split, hm]

/-- A segment takes at least one character. -/
theorem next_source_ne_nil {c : Char} {rest : List Char} {r : Segment × List Char}
    (h : next c rest = .ok r) : r.1.source ≠ [] := by
  unfold next at h
  split at h
  · exact ofWord_source_ne_nil (by simp) h
  · split at h
    · next hc => exact ofNumber_source_ne_nil hc h
    · rw [← Except.ok.inj h]; simp [source]

/-- Behind a segment there is less text than before. -/
theorem next_length {c : Char} {rest : List Char} {r : Segment × List Char}
    (h : next c rest = .ok r) : r.2.length < (c :: rest).length := by
  have hsource := congrArg List.length (next_source h)
  have hpos := List.length_pos_iff.mpr (next_source_ne_nil h)
  rw [List.length_append] at hsource
  omega

/-- The segments of a text. -/
def ofText : List Char → Except ReadError (List Segment)
  | [] => .ok []
  | c :: rest =>
    match _h : next c rest with
    | .error e => .error e
    | .ok (segment, after) => do return segment :: (← ofText after)
termination_by s => s.length
decreasing_by exact next_length _h

end Segment

end CircuitExpr
