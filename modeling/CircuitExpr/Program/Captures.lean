import CircuitExpr.Function.Table
import CircuitExpr.Variable.Bindings

/-!
# Captures

Compiled code does not look names up. It refers to the sources it reads and the functions it
calls by slots, and keeps in each slot what was found at compile time. Everything is captured
once, in the order in which it is first met.
-/

namespace CircuitExpr

/-- The sources and functions of compiled code, by slot. -/
structure Captures where
  sources : List SourceId
  functions : List Native

namespace Captures

/-- Nothing captured. -/
def empty : Captures := ⟨[], []⟩

/-- The list with an item at its end, unless the item is in the list. -/
def adjoin {α : Type} [DecidableEq α] (items : List α) (item : α) : List α :=
  if item ∈ items then items else items ++ [item]

/-- Captures a source. -/
def withSource (c : Captures) (source : SourceId) : Captures :=
  { c with sources := adjoin c.sources source }

/-- Captures a function. -/
def withFunction (c : Captures) (f : Native) : Captures :=
  { c with functions := adjoin c.functions f }

/-- The slot of a captured source. -/
def sourceSlot (c : Captures) (source : SourceId) : Nat := c.sources.idxOf source

/-- The slot of a captured function. -/
def functionSlot (c : Captures) (f : Native) : Nat := c.functions.idxOf f

/-- The outline: how much of each is captured. -/
def inspect (c : Captures) : String :=
  Text.record "Captures"
    [("sources", toString c.sources.length), ("functions", toString c.functions.length)]

/-! ## Slots hold what was captured -/

theorem adjoin_nodup {α : Type} [DecidableEq α] {items : List α} (h : items.Nodup) (item : α) :
    (adjoin items item).Nodup := by
  unfold adjoin
  split
  · exact h
  · next hn =>
    rw [List.nodup_append]
    refine ⟨h, by simp, ?_⟩
    intro a ha b hb he
    rw [List.mem_singleton] at hb
    exact hn (by rw [← hb, ← he]; exact ha)

theorem mem_adjoin {α : Type} [DecidableEq α] (items : List α) (item : α) :
    item ∈ adjoin items item := by
  unfold adjoin
  split
  · assumption
  · simp

/-- What is captured keeps its slot. -/
theorem prefix_adjoin {α : Type} [DecidableEq α] (items : List α) (item : α) :
    items <+: adjoin items item := by
  unfold adjoin
  split
  · exact List.prefix_refl _
  · exact List.prefix_append _ _

theorem getElem?_idxOf_of_mem {α : Type} [DecidableEq α] {items : List α} {item : α}
    (h : item ∈ items) : items[items.idxOf item]? = some item := by
  have hlt := List.idxOf_lt_length_iff.mpr h
  rw [List.getElem?_eq_getElem hlt, List.getElem_idxOf hlt]

theorem getElem?_sourceSlot {c : Captures} {source : SourceId} (h : source ∈ c.sources) :
    c.sources[c.sourceSlot source]? = some source :=
  getElem?_idxOf_of_mem h

theorem getElem?_functionSlot {c : Captures} {f : Native} (h : f ∈ c.functions) :
    c.functions[c.functionSlot f]? = some f :=
  getElem?_idxOf_of_mem h

end Captures

end CircuitExpr
