import CircuitExpr.Variable.Identity

/-!
# Maps from variables

A map from variables to values of any kind that keeps the order of insertion. Inserting a
variable that is there already replaces its value and its spelling and keeps its place. The
entries stand in a list, and an index says for the key of each variable where its entry stands.
-/

namespace CircuitExpr

/-- A map from variables, in the order of their first insertion. -/
structure VariableMap (A : Type) where
  comparison : NameComparison
  entries : List (Variable × A)
  /-- The place of each entry, by the key of its variable. -/
  index : List (VariableKey × Nat)

namespace VariableMap

variable {A B : Type}

/-- The map without entries. -/
def empty (comparison : NameComparison) : VariableMap A := ⟨comparison, [], []⟩

/-- The place of a variable among the entries. -/
def place? (m : VariableMap A) (v : Variable) : Option Nat := m.index.lookup (m.comparison.key v)

/-- Puts an entry in the place of the one with the same variable, or at the end. -/
def insert (m : VariableMap A) (v : Variable) (a : A) : VariableMap A :=
  match m.place? v with
  | some place => { m with entries := m.entries.set place (v, a) }
  | none =>
    { m with
      entries := m.entries ++ [(v, a)]
      index := (m.comparison.key v, m.entries.length) :: m.index }

/-- The value of a variable. -/
def get? (m : VariableMap A) (v : Variable) : Option A :=
  (m.place? v).bind fun place => m.entries[place]?.map Prod.snd

/-- Puts another value in the place of the one that a variable has; the spelling is kept. -/
def replace (m : VariableMap A) (v : Variable) (a : A) : VariableMap A :=
  match m.place? v with
  | some place => { m with entries := m.entries.modify place fun entry => (entry.1, a) }
  | none => m

/-- The variables in order. -/
def keys (m : VariableMap A) : List Variable := m.entries.map Prod.fst

/-- How many entries there are. -/
def size (m : VariableMap A) : Nat := m.entries.length

/-- The map of these entries, inserted one after another. -/
def ofList (comparison : NameComparison) (entries : List (Variable × A)) : VariableMap A :=
  entries.foldl (fun m entry => m.insert entry.1 entry.2) (empty comparison)

/--
Transforms every value in order. The results are inserted into a new map one after another; what
fails among them, or has an effect, is up to the monad.
-/
def mapM {M : Type → Type} [Monad M] (f : Variable → A → M B) (m : VariableMap A) :
    M (VariableMap B) :=
  m.entries.foldlM (fun mapped entry => do return mapped.insert entry.1 (← f entry.1 entry.2))
    (empty m.comparison)

/-- The outline, given that of a value. -/
def inspect (outline : A → String) (m : VariableMap A) : String :=
  Text.mapping (m.entries.map fun entry => (entry.1.inspect, outline entry.2))

end VariableMap

end CircuitExpr
