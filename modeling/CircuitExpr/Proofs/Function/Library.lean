import Mathlib
import CircuitExpr.Function.Library
import CircuitExpr.Proofs.Evaluation.Yields

/-!
# What the library table holds

A table is put together by registering one function after another. The lemmas say what is found
in a table after that, and hence what a call finds in the library: exactly its functions, under
their names, with their own rules.

## Main statements

* `lookup_put` — registering changes what one name stands for
* `library_get?_name`, `library_get?_eq_some` — the definitions of the library
* `LibraryFunction.rule_length` — a rule gives one slope for each argument
* `Environment.Standard.yields_of` — what a call of the library yields
-/

namespace CircuitExpr

variable {K : Type}

/-! ## Registering -/

namespace FunctionTable

theorem lookup_put (name other : String) (d : FunctionDefinition K)
    (entries : List (String × FunctionDefinition K)) :
    (put name d entries).lookup other = if other = name then some d else entries.lookup other := by
  induction entries with
  | nil => by_cases h : other = name <;> simp [put, h]
  | cons entry rest ih =>
    obtain ⟨key, value⟩ := entry
    rw [put]
    by_cases h : other = name
    · subst h
      rw [if_pos rfl] at ih ⊢
      split
      · exact List.lookup_cons_self
      · split
        · exact List.lookup_cons_self
        · next hne =>
          rw [List.lookup_cons, Bool.eq_false_iff.mpr hne]
          exact ih
    · rw [if_neg h] at ih ⊢
      split
      · rw [List.lookup_cons, beq_eq_false_iff_ne.mpr h]
      · split
        · next hkey =>
          simp only [beq_iff_eq] at hkey
          rw [List.lookup_cons, List.lookup_cons, ← hkey, beq_eq_false_iff_ne.mpr h]
        · rw [List.lookup_cons, List.lookup_cons, ih]

/-- A name is found in any case, and other names keep what they stood for. -/
theorem get?_register (t : FunctionTable K) (name other : String) (d : FunctionDefinition K) :
    (t.register name d).get? other =
      if Text.lower other = Text.lower name then some d else t.get? other :=
  lookup_put _ _ _ _

theorem resolve_eq_ok_iff {t : FunctionTable K} {name : String} {count : Nat}
    {d : FunctionDefinition K} :
    t.resolve name count = .ok d ↔ t.get? name = some d ∧ d.arity.accepts count = true := by
  unfold resolve
  cases hd : t.get? name with
  | none => simp
  | some d' =>
    by_cases haccepts : d'.arity.accepts count = true
    · simp only [haccepts, if_true, Except.ok.injEq, Option.some.injEq]
      exact ⟨fun h => ⟨h, h ▸ haccepts⟩, And.left⟩
    · simp only [haccepts, if_false, reduceCtorEq, false_iff, Option.some.injEq, not_and]
      exact fun h => h ▸ haccepts

end FunctionTable

/-! ## The library -/

namespace LibraryFunction

@[simp] theorem lower_name (f : LibraryFunction) : Text.lower f.name = f.name := by
  cases f <;> decide +kernel

theorem name_injective {f g : LibraryFunction} (h : f.name = g.name) : f = g := by
  have hnodup : (all.map name).Nodup := by decide +kernel
  exact List.inj_on_of_nodup_map hnodup (mem_all f) (mem_all g) h

end LibraryFunction

namespace FunctionTable

variable [Literal K]

/-- Registers functions of the library. -/
theorem get?_foldl_register (fs : List LibraryFunction) (t : FunctionTable K) (name : String) :
    ((fs.foldl (fun t f => t.register f.name f.definition) t).get? name = t.get? name ∧
        ∀ f ∈ fs, Text.lower name ≠ f.name) ∨
      ∃ f ∈ fs, Text.lower name = f.name ∧
        (fs.foldl (fun t f => t.register f.name f.definition) t).get? name =
          some f.definition := by
  induction fs generalizing t with
  | nil => exact .inl ⟨rfl, by simp⟩
  | cons f rest ih =>
    rw [List.foldl_cons]
    obtain ⟨hkept, hnone⟩ | ⟨g, hg, hname, hfound⟩ := ih (t.register f.name f.definition)
    · rw [hkept, get?_register, LibraryFunction.lower_name]
      by_cases h : Text.lower name = f.name
      · exact .inr ⟨f, by simp, h, by rw [if_pos h]⟩
      · rw [if_neg h]
        exact .inl ⟨rfl, List.forall_mem_cons.mpr ⟨h, hnone⟩⟩
    · exact .inr ⟨g, by simp [hg], hname, hfound⟩

/-- **Whatever is found in the library is one of its functions.** -/
theorem library_get?_eq_some {name : String} {d : FunctionDefinition K}
    (h : library.get? name = some d) : ∃ f : LibraryFunction, d = f.definition := by
  obtain ⟨hkept, -⟩ | ⟨f, -, -, hfound⟩ :=
    get?_foldl_register LibraryFunction.all (empty : FunctionTable K) name
  · exact nomatch h.symm.trans hkept
  · exact ⟨f, Option.some.inj (h.symm.trans hfound)⟩

/-- **A function of the library is found under its name.** -/
theorem library_get?_name (f : LibraryFunction) :
    (library : FunctionTable K).get? f.name = some f.definition := by
  obtain ⟨-, hnone⟩ | ⟨g, -, hname, hfound⟩ :=
    get?_foldl_register LibraryFunction.all (empty : FunctionTable K) f.name
  · exact absurd f.lower_name (hnone f f.mem_all)
  · rw [LibraryFunction.lower_name] at hname
    rw [LibraryFunction.name_injective hname]
    rw [LibraryFunction.name_injective hname] at hfound
    exact hfound

theorem library_resolve_name {f : LibraryFunction} {count : Nat}
    (h : f.arity.accepts count = true) :
    (library : FunctionTable K).resolve f.name count = .ok f.definition :=
  resolve_eq_ok_iff.mpr ⟨library_get?_name f, h⟩

theorem library_resolve_eq_ok {name : String} {count : Nat} {d : FunctionDefinition K}
    (h : library.resolve name count = .ok d) :
    ∃ f : LibraryFunction, d = f.definition ∧ f.arity.accepts count = true := by
  obtain ⟨hfound, haccepts⟩ := resolve_eq_ok_iff.mp h
  obtain ⟨f, rfl⟩ := library_get?_eq_some hfound
  exact ⟨f, rfl, haccepts⟩

end FunctionTable

/-! ## One slope for each argument -/

namespace LibraryFunction

variable [Literal K]

theorem selectionSlopes_length (beats : Expr K → Expr K → Expr K) (earlier es : List (Expr K)) :
    (selectionSlopes beats earlier es).length = es.length := by
  induction es generalizing earlier with
  | nil => rw [selectionSlopes]
  | cons e rest ih => rw [selectionSlopes, List.length_cons, ih, List.length_cons]

theorem flat_length (es : List (Expr K)) : (flat es).length = es.length := by
  rw [flat, List.length_map]

/-- **A rule gives as many slopes as a call has arguments.** -/
theorem rule_length {f : LibraryFunction} {arguments : List (Expr K)}
    (h : f.arity.accepts arguments.length = true) :
    (f.rule arguments).length = arguments.length := by
  cases f with
  | sgn | floor | ceil | round | u => exact flat_length arguments
  | min | max => exact selectionSlopes_length _ [] arguments
  | pow | pwr =>
    obtain ⟨x, y, rfl⟩ := List.length_eq_two.mp (beq_iff_eq.mp h)
    rfl
  | limit =>
    obtain ⟨x, low, high, rfl⟩ := List.length_eq_three.mp (beq_iff_eq.mp h)
    rfl
  | _ => exact List.length_map _

end LibraryFunction

/-! ## Calls of the library -/

namespace Environment

variable {D σ : Type} [Literal K] [Scalar D K] {env : Environment K D σ} {setting : Setting D}
  {host : σ} {f : LibraryFunction} {arguments : List (Expr K)} {xs : List D}

/-- The library is registered, and its functions are computed as they are defined. -/
structure Standard (env : Environment K D σ) : Prop where
  functions : env.functions = .library
  natives : ∀ f values host, (env.natives (.library f) values).run host = (f.apply values, host)

theorem Standard.yields_of (henv : env.Standard)
    (haccepts : f.arity.accepts arguments.length = true)
    (h : List.Forall₂ (Expr.Yields env setting host) arguments xs) :
    Expr.Yields env setting host (LibraryFunction.of f arguments) (f.apply xs) := by
  have hresolve : env.functions.resolve f.name arguments.length = .ok f.definition := by
    rw [henv.functions]
    exact FunctionTable.library_resolve_name haccepts
  exact Expr.yields_call hresolve h (henv.natives f xs host)

end Environment

end CircuitExpr
