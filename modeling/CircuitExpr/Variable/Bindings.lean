import CircuitExpr.Variable.Identity

/-!
# Bindings

Variables get their values from sources. A source is known by a number; what it yields at a
moment is given apart, by a `Setting`, so that evaluating at another moment needs no other
bindings. Several variables may be bound to one source.

## Contents

* `SourceId`, `Setting` — sources and what they yield
* `Sources` — sources that hold a value until it is set anew
* `Bindings` — which variable reads which source
-/

namespace CircuitExpr

/-- The number of a source. -/
abbrev SourceId := Nat

/-- What every source yields at one moment. -/
abbrev Setting (D : Type) := SourceId → D

/-! ## Sources that hold a value -/

/-- The values of the sources numbered from zero. -/
structure Sources (D : Type) where
  values : Array D

namespace Sources

variable {D : Type}

/-- No source. -/
def empty : Sources D := ⟨#[]⟩

/-- The number of the next source. -/
def next (s : Sources D) : SourceId := s.values.size

/-- One source more. -/
def add (s : Sources D) (value : D) : Sources D := ⟨s.values.push value⟩

/-- Sets a source to another value. -/
def set (s : Sources D) (source : SourceId) (value : D) : Sources D :=
  ⟨s.values.setIfInBounds source value⟩

/-- The values of all sources, `other` for those that are not there. -/
def setting (s : Sources D) (other : D) : Setting D := fun source => s.values.getD source other

end Sources

/-! ## Bindings -/

/-- The source of each bound variable. -/
structure Bindings where
  comparison : NameComparison
  entries : List (VariableKey × SourceId)

namespace Bindings

/-- No variable is bound. -/
def empty (comparison : NameComparison) : Bindings := ⟨comparison, []⟩

/-- Puts a value at a key, in place of the one that is there. -/
def put (key : VariableKey) (source : SourceId) :
    List (VariableKey × SourceId) → List (VariableKey × SourceId)
  | [] => [(key, source)]
  | entry :: rest => if entry.1 = key then (key, source) :: rest else entry :: put key source rest

/-- Binds a variable; a variable that is bound reads the new source from now on. -/
def bind (b : Bindings) (v : Variable) (source : SourceId) : Bindings :=
  { b with entries := put (b.comparison.key v) source b.entries }

/-- The source of a variable. -/
def get? (b : Bindings) (v : Variable) : Option SourceId :=
  b.entries.lookup (b.comparison.key v)

/-- Whether a variable is bound. -/
def contains (b : Bindings) (v : Variable) : Bool := (b.get? v).isSome

/-- How many variables are bound. -/
def size (b : Bindings) : Nat := b.entries.length

/-- The keys of the bound variables in their order. -/
def keys (b : Bindings) : List VariableKey :=
  (b.entries.map Prod.fst).mergeSort fun k l => (k.compare l).isLE

/-- The outline. -/
def inspect (b : Bindings) : String :=
  Text.record "Bindings"
    [("comparison", b.comparison.inspect),
      ("variables", Text.bracketed (b.keys.map VariableKey.inspect))]

/-! ### Looking up after binding -/

theorem lookup_put_self (key : VariableKey) (source : SourceId)
    (entries : List (VariableKey × SourceId)) :
    (put key source entries).lookup key = some source := by
  induction entries with
  | nil => simp [put]
  | cons entry rest ih =>
    obtain ⟨k, s⟩ := entry
    rw [put]
    split
    · simp
    · next h =>
      rw [List.lookup_cons, beq_eq_false_iff_ne.mpr (Ne.symm h)]
      exact ih

theorem lookup_put_of_ne {key other : VariableKey} (h : other ≠ key) (source : SourceId)
    (entries : List (VariableKey × SourceId)) :
    (put key source entries).lookup other = entries.lookup other := by
  induction entries with
  | nil => simp [put, h]
  | cons entry rest ih =>
    obtain ⟨k, s⟩ := entry
    rw [put]
    split
    · next hk =>
      rw [List.lookup_cons, List.lookup_cons, beq_eq_false_iff_ne.mpr h,
        beq_eq_false_iff_ne.mpr (fun he => h (he.trans hk))]
    · rw [List.lookup_cons, List.lookup_cons, ih]

/-- A bound variable reads its source, and so does every variable that is the same. -/
theorem get?_bind_of_same {b : Bindings} {v w : Variable} (h : b.comparison.same w v = true)
    (source : SourceId) : (b.bind v source).get? w = some source := by
  have hkey := NameComparison.same_iff_key_eq.mp h
  unfold get? bind
  simp only [hkey]
  exact lookup_put_self _ _ _

/-- Binding a variable leaves the others as they are. -/
theorem get?_bind_of_not_same {b : Bindings} {v w : Variable}
    (h : b.comparison.same w v = false) (source : SourceId) :
    (b.bind v source).get? w = b.get? w := by
  unfold get? bind
  exact lookup_put_of_ne (NameComparison.not_same_iff_key_ne.mp h) _ _

end Bindings

end CircuitExpr
