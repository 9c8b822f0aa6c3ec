import Mathlib
import CircuitExpr.Proofs.Decimal.Display
import CircuitExpr.Proofs.Grammar.Powers

/-!
# Displayed numbers as expressions

A number without sign is one segment, and so it is read as a constant. A minus sign is an operator
wherever it stands, so that a displayed number with a sign is read as the negative of a constant.

## Main statements

* `Expr.parse_display` — a displayed number without sign is a constant
* `Expr.parse_display_signed` — a displayed number with a sign is the negative of one
-/

namespace CircuitExpr

open Binary64 (signBit)

variable {x : Float}

theorem Segment.ofText_display (hfinite : x.isFinite = true) (hsign : signBit x = false) :
    ofText (Decimal.display x).toList =
      .ok [.literal (Decimal.display x).toList x] := by
  have htext := ofText_number (Decimal.display_spec hfinite hsign)
    (Decimal.read?_display hfinite hsign) stops_nil
  rw [List.append_nil, ofText] at htext
  exact htext

/-- **A displayed number without sign is a constant.** -/
theorem Expr.parse_display (hfinite : x.isFinite = true) (hsign : signBit x = false) :
    Expr.parse (Decimal.display x) = .ok (.const x) := by
  have hparse := (Operand.ofLiteral (Segment.ofText_display hfinite hsign)).parse_eq
  rwa [Operand.ofLiteral, String.ofList_toList] at hparse

theorem Text.blank_of_mem_nil : ∀ c ∈ ([] : List Char), isBlank c = true :=
  List.forall_mem_nil _

/-- An operand with one sign in front. -/
def Factor.ofSign {c : Char} (hc : Sign.IsPart c) (o : Operand) : Factor where
  signs := [c]
  operand := o
  blanks := []
  signs_spec := List.forall_mem_singleton.mpr hc
  blanks_spec := Text.blank_of_mem_nil

/-- **A displayed number with a sign is the negative of a constant.** -/
theorem Expr.parse_display_signed (hfinite : x.isFinite = true) (hsign : signBit x = true) :
    Expr.parse (Decimal.display x) = .ok (.unary .minus (.const (-x))) := by
  obtain ⟨htext, hunsigned⟩ := Decimal.display_of_signBit hfinite hsign
  have hsize := Segment.ofText_display ((Binary64.isFinite_neg x).trans hfinite) hunsigned
  have hminus : Sign.IsPart '-' := .inl rfl
  have htwo : 2 ≤ Lifted.maxIndex := by decide
  have hparse := Factor.parse_row_of_segments (.ofSign hminus (.ofLiteral hsize)) [] htwo
  have hrow : Factor.rowText (.ofSign hminus (.ofLiteral hsize)) [] =
      (Decimal.display x).toList := by
    rw [htext]
    show '-' :: ((Decimal.display (-x)).toList ++ []) ++ [] = _
    rw [List.append_nil, List.append_nil]
  rw [hrow, String.ofList_toList] at hparse
  exact hparse

end CircuitExpr
