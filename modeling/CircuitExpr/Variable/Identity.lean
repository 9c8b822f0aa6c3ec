import CircuitExpr.Text.LowerCase
import CircuitExpr.Variable.Basic

/-!
# When two variables are the same

Circuit names are usually compared without regard to case, and exactly where a circuit asks for
it. Either way a variable has a key, and two variables are the same when their kinds, quantities
and compared names agree, which is when their keys do (`same_iff_key_eq`).
-/

namespace CircuitExpr

/-- How names are compared. -/
inductive NameComparison where
  | caseInsensitive
  | caseSensitive
deriving DecidableEq

/-- A variable as it is looked up: the name in the form in which it is compared. -/
structure VariableKey where
  name : String
  kind : VariableKind
  quantity : Quantity
deriving DecidableEq

namespace NameComparison

/-- The form in which a name is compared. -/
def fold : NameComparison → String → String
  | caseInsensitive, name => Text.lower name
  | caseSensitive, name => name

/-- The key of a variable. -/
def key (c : NameComparison) (v : Variable) : VariableKey := ⟨c.fold v.name, v.kind, v.quantity⟩

/-- Whether two variables are the same. -/
def same (c : NameComparison) (v w : Variable) : Bool :=
  v.kind == w.kind && v.quantity == w.quantity && c.fold v.name == c.fold w.name

def inspect : NameComparison → String
  | caseInsensitive => "CaseInsensitive"
  | caseSensitive => "CaseSensitive"

/-- Variables are the same exactly when they are looked up under the same key. -/
theorem same_iff_key_eq {c : NameComparison} {v w : Variable} :
    c.same v w = true ↔ c.key v = c.key w := by
  simp only [same, key, Bool.and_eq_true, beq_iff_eq, VariableKey.mk.injEq]
  constructor
  · rintro ⟨⟨hk, hq⟩, hn⟩
    exact ⟨hn, hk, hq⟩
  · rintro ⟨hn, hk, hq⟩
    exact ⟨⟨hk, hq⟩, hn⟩

/-- Variables are different exactly when they are looked up under different keys. -/
theorem not_same_iff_key_ne {c : NameComparison} {v w : Variable} :
    c.same v w = false ↔ c.key v ≠ c.key w := by
  rw [← Bool.not_eq_true, same_iff_key_eq]

theorem same_comm (c : NameComparison) (v w : Variable) : c.same v w = c.same w v := by
  rw [Bool.eq_iff_iff, same_iff_key_eq, same_iff_key_eq, eq_comm]

/-- Variables under the same key are the same as the same variables. -/
theorem same_congr {c : NameComparison} {v w : Variable} (h : c.key v = c.key w) (u : Variable) :
    c.same u v = c.same u w := by
  rw [Bool.eq_iff_iff, same_iff_key_eq, same_iff_key_eq, h]

end NameComparison

namespace VariableKey

/-- Keys are ordered by name, then by kind, then by quantity. -/
def compare (a b : VariableKey) : Ordering :=
  (Ord.compare a.name b.name).then
    ((Ord.compare a.kind.rank b.kind.rank).then (Ord.compare a.quantity.rank b.quantity.rank))

/-- The outline. -/
def inspect (k : VariableKey) : String :=
  Text.record "VariableKey"
    [("name", Text.quote k.name), ("kind", k.kind.inspect), ("quantity", k.quantity.inspect)]

end VariableKey

end CircuitExpr
