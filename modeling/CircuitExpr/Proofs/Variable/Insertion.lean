import Mathlib
import CircuitExpr.Expr.Variables
import CircuitExpr.Variable.Map

/-!
# Maps from variables after insertions

A map is filled by insertions, each of which either replaces an entry in its place or appends a
new one, and in the second case also writes down its place. What the index says is kept by both,
so after any run of insertions the map can be told from the insertions alone.

## Contents

* `Expr.nodup_firstOccurrences`, `Expr.firstOccurrences_concat` — each variable is left once, where
  it came first
* `VariableMap.Indexed` — the index says where each entry stands, and nothing else;
  `Indexed.insert` is the step, `indexed_ofList` the run
* `VariableMap.lastOf` — the insertion that counts for a variable
* `VariableMap.Calls` — a function called on entries one after another
* `VariableMap.insertions_recorded` — the map after any run of insertions
-/

namespace CircuitExpr

/-! ## Each variable once -/

namespace Expr

variable {c : NameComparison}

theorem mem_map_key_firstOccurrences {seen : List VariableKey} {vs : List Variable}
    {k : VariableKey} :
    k ∈ (firstOccurrences c seen vs).map c.key ↔ k ∈ vs.map c.key ∧ k ∉ seen := by
  induction vs generalizing seen with
  | nil => simp [firstOccurrences]
  | cons v rest ih =>
    rw [firstOccurrences]
    split
    · next hseen =>
      rw [ih, List.map_cons, List.mem_cons]
      have hv : c.key v ∈ seen := List.contains_iff_mem.mp hseen
      exact ⟨fun ⟨h, hk⟩ => ⟨.inr h, hk⟩,
        fun ⟨h, hk⟩ => ⟨h.resolve_left fun he => hk (he ▸ hv), hk⟩⟩
    · next hseen =>
      have hv : c.key v ∉ seen := fun h => hseen (List.contains_iff_mem.mpr h)
      rw [List.map_cons, List.map_cons, List.mem_cons, List.mem_cons, ih, List.mem_cons, not_or]
      by_cases hk : k = c.key v
      · subst hk
        exact ⟨fun _ => ⟨.inl rfl, hv⟩, fun _ => .inl rfl⟩
      · simp only [hk, false_or, not_false_eq_true, true_and]

/-- No variable is left twice. -/
theorem nodup_firstOccurrences (seen : List VariableKey) (vs : List Variable) :
    ((firstOccurrences c seen vs).map c.key).Nodup := by
  induction vs generalizing seen with
  | nil => exact .nil
  | cons v rest ih =>
    rw [firstOccurrences]
    split
    · exact ih seen
    · rw [List.map_cons, List.nodup_cons]
      exact ⟨fun h => (mem_map_key_firstOccurrences.mp h).2 List.mem_cons_self, ih _⟩

/-- One more variable at the end is left if it is new. -/
theorem firstOccurrences_concat (seen : List VariableKey) (vs : List Variable) (v : Variable) :
    firstOccurrences c seen (vs ++ [v]) = firstOccurrences c seen vs ++
      if c.key v ∈ seen ∨ c.key v ∈ vs.map c.key then [] else [v] := by
  induction vs generalizing seen with
  | nil =>
    rw [List.nil_append, firstOccurrences, firstOccurrences]
    by_cases h : c.key v ∈ seen <;> simp [h, firstOccurrences]
  | cons w rest ih =>
    rw [List.cons_append, firstOccurrences, firstOccurrences]
    by_cases h : c.key w ∈ seen
    · rw [if_pos (List.contains_iff_mem.mpr h), if_pos (List.contains_iff_mem.mpr h), ih]
      have hiff : (c.key v ∈ seen ∨ c.key v ∈ (w :: rest).map c.key) ↔
          (c.key v ∈ seen ∨ c.key v ∈ rest.map c.key) := by
        rw [List.map_cons, List.mem_cons]
        exact ⟨fun hv => hv.elim .inl fun hv => hv.elim (fun he => .inl (he ▸ h)) .inr,
          fun hv => hv.imp id .inr⟩
      simp only [hiff]
    · have hcontains : ¬ seen.contains (c.key w) = true := fun hc => h (List.contains_iff_mem.mp hc)
      rw [if_neg hcontains, if_neg hcontains, ih, List.cons_append]
      have hiff : (c.key v ∈ seen ∨ c.key v ∈ (w :: rest).map c.key) ↔
          (c.key v ∈ c.key w :: seen ∨ c.key v ∈ rest.map c.key) := by
        rw [List.map_cons, List.mem_cons, List.mem_cons]
        tauto
      simp only [hiff]

end Expr

namespace VariableMap

variable {A B E τ : Type} {m : VariableMap A} {c : NameComparison} {v w : Variable} {a : A}
  {place : Nat}

/-! ## One insertion -/

@[simp] theorem comparison_insert (m : VariableMap A) (v : Variable) (a : A) :
    (m.insert v a).comparison = m.comparison := by
  unfold insert
  split <;> rfl

theorem insert_of_place (h : m.place? v = some place) (a : A) :
    m.insert v a = { m with entries := m.entries.set place (v, a) } := by
  rw [insert, h]

theorem insert_of_absent (h : m.place? v = none) (a : A) :
    m.insert v a = { m with
      entries := m.entries ++ [(v, a)]
      index := (m.comparison.key v, m.entries.length) :: m.index } := by
  rw [insert, h]

/-- The keys under which the entries are looked up, in order. -/
def lookupKeys (m : VariableMap A) : List VariableKey := m.keys.map m.comparison.key

/-- The index says for the key of each entry where the entry stands, and nothing else. -/
def Indexed (m : VariableMap A) : Prop :=
  ∀ k place, m.index.lookup k = some place ↔ m.lookupKeys[place]? = some k

theorem indexed_empty (c : NameComparison) : (empty c : VariableMap A).Indexed := by
  intro k place
  simp [empty, lookupKeys, keys]

theorem length_lookupKeys (m : VariableMap A) : m.lookupKeys.length = m.entries.length := by
  rw [lookupKeys, keys, List.length_map, List.length_map]

theorem getElem?_lookupKeys (m : VariableMap A) (place : Nat) :
    m.lookupKeys[place]? = m.entries[place]?.map fun entry => m.comparison.key entry.1 := by
  rw [lookupKeys, keys, List.map_map, List.getElem?_map]
  rfl

theorem lookupKeys_insert_of_absent (hp : m.place? v = none) (a : A) :
    (m.insert v a).lookupKeys = m.lookupKeys ++ [m.comparison.key v] := by
  rw [insert_of_absent hp]
  simp [lookupKeys, keys]

theorem key_mem_lookupKeys {entry : Variable × A} (h : entry ∈ m.entries) :
    m.comparison.key entry.1 ∈ m.lookupKeys :=
  List.mem_map_of_mem (List.mem_map_of_mem h)

namespace Indexed

theorem place?_eq_some (h : m.Indexed) :
    m.place? v = some place ↔ m.lookupKeys[place]? = some (m.comparison.key v) :=
  h _ _

theorem place?_eq_none (h : m.Indexed) :
    m.place? v = none ↔ m.comparison.key v ∉ m.lookupKeys := by
  rw [Option.eq_none_iff_forall_ne_some, List.mem_iff_getElem?, not_exists]
  exact forall_congr' fun place => not_congr h.place?_eq_some

/-- No two entries have the same variable. -/
theorem nodup (h : m.Indexed) : m.lookupKeys.Nodup := by
  rw [List.nodup_iff_getElem?_ne_getElem?]
  intro i j hij hj he
  have hk : m.lookupKeys[j]? = some m.lookupKeys[j] := List.getElem?_eq_getElem hj
  -- the key at both places has one place in the index
  have hsame := ((h _ _).mpr hk).symm.trans ((h _ _).mpr (he.trans hk))
  exact absurd (Option.some.inj hsame) (by omega)

theorem eq_place (h : m.Indexed) {i : Nat} {k : VariableKey} (hp : m.lookupKeys[place]? = some k)
    (hi : m.lookupKeys[i]? = some k) : i = place :=
  Option.some.inj (((h _ _).mpr hi).symm.trans ((h _ _).mpr hp))

/-- Replacing an entry by one with the same variable leaves the keys as they are. -/
theorem lookupKeys_insert (h : m.Indexed) (hp : m.place? v = some place) (a : A) :
    (m.insert v a).lookupKeys = m.lookupKeys := by
  have hkey := h.place?_eq_some.mp hp
  rw [insert_of_place hp]
  unfold lookupKeys keys
  rw [List.map_map, List.map_set, List.map_map]
  refine List.ext_getElem? fun i => ?_
  rw [List.getElem?_set]
  split
  · next hi =>
    subst hi
    rw [lookupKeys, keys, List.map_map] at hkey
    rw [hkey]
    split
    · rfl
    · next hlt =>
      rw [List.getElem?_eq_none (not_lt.mp hlt)] at hkey
      exact nomatch hkey
  · rfl

/-- **Inserting keeps the index in step with the entries.** -/
theorem insert (h : m.Indexed) (v : Variable) (a : A) : (m.insert v a).Indexed := by
  intro k i
  cases hp : m.place? v with
  | some place =>
    rw [h.lookupKeys_insert hp, insert_of_place hp]
    exact h k i
  | none =>
    have habsent := h.place?_eq_none.mp hp
    rw [lookupKeys_insert_of_absent hp, insert_of_absent hp, List.lookup_cons]
    by_cases hk : k = m.comparison.key v
    · subst hk
      rw [beq_self_eq_true, ← m.length_lookupKeys]
      constructor
      · rintro ⟨⟩
        exact List.getElem?_concat_length
      · intro hi
        by_cases hlt : i < m.lookupKeys.length
        · rw [List.getElem?_append_left hlt] at hi
          exact absurd (List.mem_of_getElem? hi) habsent
        · have hbound := (List.getElem?_eq_some_iff.mp hi).1
          rw [List.length_append, List.length_singleton] at hbound
          exact congrArg some (by omega)
    · rw [beq_eq_false_iff_ne.mpr hk]
      refine (h k i).trans ?_
      by_cases hlt : i < m.lookupKeys.length
      · rw [List.getElem?_append_left hlt]
      · rw [List.getElem?_eq_none (not_lt.mp hlt), List.getElem?_append_right (not_lt.mp hlt),
          List.getElem?_singleton]
        constructor
        · exact nofun
        · intro hi
          split at hi
          · exact absurd (Option.some.inj hi).symm hk
          · exact nomatch hi

theorem lt_length (h : m.Indexed) (hp : m.place? v = some place) : place < m.entries.length := by
  rw [← length_lookupKeys]
  exact (List.getElem?_eq_some_iff.mp (h.place?_eq_some.mp hp)).1

/-- What was inserted is found under every variable that is the same. -/
theorem get?_insert_of_same (h : m.Indexed) (hvw : m.comparison.same v w = true) (a : A) :
    (m.insert v a).get? w = some a := by
  have hkey := NameComparison.same_iff_key_eq.mp hvw
  cases hp : m.place? v with
  | some place =>
    have hw : m.index.lookup (m.comparison.key w) = some place := hkey ▸ hp
    simp only [insert_of_place hp, get?, place?, hw, Option.bind_some]
    rw [List.getElem?_set_self (h.lt_length hp)]
    rfl
  | none =>
    simp only [insert_of_absent hp, get?, place?, hkey, List.lookup_cons, beq_self_eq_true,
      Option.bind_some, List.getElem?_concat_length, Option.map_some]

/-- Inserting a variable leaves the others as they are. -/
theorem get?_insert_of_not_same (h : m.Indexed) (hvw : m.comparison.same v w = false) (a : A) :
    (m.insert v a).get? w = m.get? w := by
  have hkey := NameComparison.not_same_iff_key_ne.mp hvw
  cases hp : m.place? v with
  | some place =>
    simp only [insert_of_place hp, get?, place?]
    cases hw : m.index.lookup (m.comparison.key w) with
    | none => rfl
    | some other =>
      have hne : place ≠ other := by
        rintro rfl
        exact hkey (Option.some.inj ((h.place?_eq_some.mp hp).symm.trans ((h _ _).mp hw)))
      rw [Option.bind_some, Option.bind_some, List.getElem?_set_ne hne]
  | none =>
    simp only [insert_of_absent hp, get?, place?, List.lookup_cons,
      beq_eq_false_iff_ne.mpr (Ne.symm hkey)]
    cases hw : m.index.lookup (m.comparison.key w) with
    | none => rfl
    | some other =>
      rw [Option.bind_some, Option.bind_some, List.getElem?_append_left (h.lt_length hw)]

end Indexed

/-! ## Runs of insertions -/

theorem ofList_concat (c : NameComparison) (insertions : List (Variable × A))
    (entry : Variable × A) :
    ofList c (insertions ++ [entry]) = (ofList c insertions).insert entry.1 entry.2 := by
  rw [ofList, ofList, List.foldl_append]
  rfl

@[simp] theorem comparison_ofList (c : NameComparison) (insertions : List (Variable × A)) :
    (ofList c insertions).comparison = c := by
  induction insertions using List.reverseRecOn with
  | nil => rfl
  | append_singleton insertions entry ih => rw [ofList_concat, comparison_insert, ih]

/-- **After any run of insertions the index is in step with the entries.** -/
theorem indexed_ofList (c : NameComparison) (insertions : List (Variable × A)) :
    (ofList c insertions).Indexed := by
  induction insertions using List.reverseRecOn with
  | nil => exact indexed_empty c
  | append_singleton insertions entry ih =>
    rw [ofList_concat]
    exact ih.insert _ _

/-- The last insertion of a variable. -/
def lastOf (c : NameComparison) (insertions : List (Variable × A)) (v : Variable) :
    Option (Variable × A) :=
  insertions.reverse.find? fun entry => c.same entry.1 v

theorem lastOf_concat (insertions : List (Variable × A)) (entry : Variable × A) (v : Variable) :
    lastOf c (insertions ++ [entry]) v =
      if c.same entry.1 v then some entry else lastOf c insertions v := by
  rw [lastOf, List.reverse_append, List.reverse_singleton, List.singleton_append, List.find?_cons]
  split
  · next h => rw [if_pos h]
  · next h => rw [if_neg (Bool.eq_false_iff.mp h), lastOf]

/-- Variables that are the same share the insertion that counts. -/
theorem lastOf_congr (h : c.key v = c.key w) (insertions : List (Variable × A)) :
    lastOf c insertions v = lastOf c insertions w := by
  simp only [lastOf, NameComparison.same_congr h]

/-- What a variable was last inserted with is found. -/
theorem get?_ofList (insertions : List (Variable × A)) (v : Variable) :
    (ofList c insertions).get? v = (lastOf c insertions v).map Prod.snd := by
  induction insertions using List.reverseRecOn with
  | nil => rfl
  | append_singleton insertions entry ih =>
    have hindexed := indexed_ofList c insertions
    rw [ofList_concat, lastOf_concat]
    by_cases h : c.same entry.1 v = true
    · rw [if_pos h]
      exact hindexed.get?_insert_of_same (by rwa [comparison_ofList]) _
    · rw [if_neg h, ← ih]
      exact hindexed.get?_insert_of_not_same (by rwa [comparison_ofList, ← Bool.not_eq_true]) _

/-- The keys of the entries are those of the insertions, each once. -/
theorem lookupKeys_ofList (insertions : List (Variable × A)) :
    (ofList c insertions).lookupKeys =
      (Expr.firstOccurrences c [] (insertions.map Prod.fst)).map c.key := by
  induction insertions using List.reverseRecOn with
  | nil => rfl
  | append_singleton insertions entry ih =>
    have hindexed := indexed_ofList c insertions
    have hmem : c.key entry.1 ∈ (ofList c insertions).lookupKeys ↔
        c.key entry.1 ∈ (insertions.map Prod.fst).map c.key := by
      rw [ih, Expr.mem_map_key_firstOccurrences]
      simp only [List.not_mem_nil, not_false_eq_true, and_true]
    rw [ofList_concat, List.map_append, List.map_singleton, Expr.firstOccurrences_concat]
    cases hp : (ofList c insertions).place? entry.1 with
    | some place =>
      have hkey := hindexed.place?_eq_some.mp hp
      rw [comparison_ofList] at hkey
      rw [hindexed.lookupKeys_insert hp, ih, if_pos (.inr (hmem.mp (List.mem_of_getElem? hkey))),
        List.append_nil]
    | none =>
      have habsent := hindexed.place?_eq_none.mp hp
      rw [comparison_ofList, hmem] at habsent
      rw [lookupKeys_insert_of_absent hp, comparison_ofList, ih,
        if_neg (not_or.mpr ⟨List.not_mem_nil, habsent⟩), List.map_append, List.map_singleton]

/-- Every entry is the last insertion of its variable. -/
theorem lastOf_of_mem_ofList {insertions : List (Variable × A)} {entry : Variable × A}
    (h : entry ∈ (ofList c insertions).entries) : lastOf c insertions entry.1 = some entry := by
  induction insertions using List.reverseRecOn generalizing entry with
  | nil => exact absurd h List.not_mem_nil
  | append_singleton insertions last ih =>
    have hindexed := indexed_ofList c insertions
    rw [ofList_concat] at h
    rw [lastOf_concat]
    cases hp : (ofList c insertions).place? last.1 with
    | some place =>
      rw [insert_of_place hp, List.mem_iff_getElem?] at h
      obtain ⟨i, hi⟩ := h
      by_cases hplace : place = i
      · subst hplace
        rw [List.getElem?_set_self (hindexed.lt_length hp)] at hi
        obtain rfl := Option.some.inj hi
        rw [if_pos (NameComparison.same_iff_key_eq.mpr rfl)]
      · -- the entry stands elsewhere, so its variable is another one
        rw [List.getElem?_set_ne hplace] at hi
        have hkey : c.key last.1 ≠ c.key entry.1 := by
          intro he
          refine hplace (hindexed.eq_place (k := c.key entry.1) ?_ ?_)
          · rw [getElem?_lookupKeys, hi, comparison_ofList, Option.map_some]
          · rw [hindexed.place?_eq_some.mp hp, comparison_ofList, he]
        rw [NameComparison.not_same_iff_key_ne.mpr hkey, if_neg Bool.false_ne_true]
        exact ih (List.mem_of_getElem? hi)
    | none =>
      rw [insert_of_absent hp, List.mem_append, List.mem_singleton] at h
      rcases h with h | rfl
      · have hkey : c.key last.1 ≠ c.key entry.1 := by
          intro he
          refine hindexed.place?_eq_none.mp hp ?_
          have hmem := key_mem_lookupKeys h
          simp only [comparison_ofList] at hmem ⊢
          rwa [he]
        rw [NameComparison.not_same_iff_key_ne.mpr hkey, if_neg Bool.false_ne_true]
        exact ih h
      · rw [if_pos (NameComparison.same_iff_key_eq.mpr rfl)]

/-- A map holds nothing but what was inserted. -/
theorem mem_of_mem_ofList {insertions : List (Variable × A)} {entry : Variable × A}
    (h : entry ∈ (ofList c insertions).entries) : entry ∈ insertions :=
  List.mem_reverse.mp (List.mem_of_find?_eq_some (lastOf_of_mem_ofList h))

/-- The entries in order are the last insertions of the variables in the order of the first. -/
theorem entries_ofList (insertions : List (Variable × A)) :
    (ofList c insertions).entries.map some =
      (Expr.firstOccurrences c [] (insertions.map Prod.fst)).map (lastOf c insertions) := by
  refine List.ext_getElem? fun i => ?_
  have hkeys := congrArg (·[i]?) (lookupKeys_ofList (c := c) insertions)
  simp only [getElem?_lookupKeys, comparison_ofList, List.getElem?_map] at hkeys ⊢
  cases hentry : (ofList c insertions).entries[i]? with
  | none =>
    rw [hentry, Option.map_none] at hkeys
    rw [Option.map_eq_none_iff.mp hkeys.symm]
    rfl
  | some entry =>
    rw [hentry, Option.map_some] at hkeys
    obtain ⟨first, hfirst, hkey⟩ := Option.map_eq_some_iff.mp hkeys.symm
    have hlast := lastOf_of_mem_ofList (List.mem_of_getElem? hentry)
    rw [hfirst, Option.map_some, Option.map_some, lastOf_congr hkey, hlast]

/-- Entries without a variable that comes twice are kept as they are. -/
theorem entries_ofList_of_nodup {entries : List (Variable × A)}
    (h : ((entries.map Prod.fst).map c.key).Nodup) : (ofList c entries).entries = entries := by
  induction entries using List.reverseRecOn with
  | nil => rfl
  | append_singleton entries entry ih =>
    rw [List.map_append, List.map_append, List.nodup_append] at h
    obtain ⟨hnodup, -, hne⟩ := h
    have habsent : (ofList c entries).place? entry.1 = none := by
      rw [(indexed_ofList c entries).place?_eq_none, lookupKeys, keys, ih hnodup]
      simp only [comparison_ofList]
      exact fun hmem => hne _ hmem _ (by simp) rfl
    rw [ofList_concat, insert_of_absent habsent, ih hnodup]

/-! ## Transforming -/

/-- Transforms the value of an entry. -/
def transform {M : Type → Type} [Monad M] (f : Variable → A → M B) (entry : Variable × A) :
    M (Variable × B) := do
  return (entry.1, ← f entry.1 entry.2)

/-- In a lawful monad the values are transformed one after another, and then inserted. -/
theorem mapM_eq {M : Type → Type} [Monad M] [LawfulMonad M] (f : Variable → A → M B)
    (m : VariableMap A) :
    m.mapM f = m.entries.mapM (transform f) >>= fun made => pure (ofList m.comparison made) := by
  unfold mapM ofList
  generalize (empty m.comparison : VariableMap B) = start
  induction m.entries generalizing start with
  | nil => rw [List.foldlM_nil, List.mapM_nil, pure_bind, List.foldl_nil]
  | cons entry rest ih =>
    rw [List.foldlM_cons, List.mapM_cons, transform]
    simp only [bind_assoc, pure_bind, ih, List.foldl_cons]

/--
A function that has a state and may fail is called on entries one after another, from one state
to another, and succeeds with these results.
-/
inductive Calls (f : Variable → A → ExceptT E (StateM τ) B) :
    τ → List (Variable × A) → τ → List (Variable × B) → Prop where
  | nil (s : τ) : Calls f s [] s []
  | cons {v : Variable} {a : A} {b : B} {s s₁ s₂ : τ} {rest : List (Variable × A)}
      {made : List (Variable × B)} (h : (f v a).run.run s = (.ok b, s₁))
      (hrest : Calls f s₁ rest s₂ made) : Calls f s ((v, a) :: rest) s₂ ((v, b) :: made)

/--
The values are transformed by one call each in order. Either all calls succeed, and their results
stand in a map with the same comparison and the same variables in the same order; or one fails,
no other is made after it, and its failure is the result.
-/
def MapsInOrder (f : Variable → A → ExceptT E (StateM τ) B) (m : VariableMap A) (s : τ) : Prop :=
  (∃ s' m', Calls f s m.entries s' m'.entries ∧ m'.comparison = m.comparison ∧
      m'.keys = m.keys ∧ m'.Indexed ∧ (m.mapM f).run.run s = (.ok m', s')) ∨
    ∃ before v a after s₁ made failure s₂, m.entries = before ++ (v, a) :: after ∧
      Calls f s before s₁ made ∧ (f v a).run.run s₁ = (.error failure, s₂) ∧
      (m.mapM f).run.run s = (.error failure, s₂)

section Calls

variable {α β : Type} {x : ExceptT E (StateM τ) α} {k : α → ExceptT E (StateM τ) β}
  {f : Variable → A → ExceptT E (StateM τ) B} {s s' s₁ : τ} {entries : List (Variable × A)}
  {made : List (Variable × B)} {failure : E}

theorem run_bind_ok {x₁ : α} (h : x.run.run s = (.ok x₁, s₁)) :
    (x >>= k).run.run s = (k x₁).run.run s₁ := by
  rw [ExceptT.run_bind, StateT.run_bind, h]
  rfl

theorem run_bind_error (h : x.run.run s = (.error failure, s₁)) :
    (x >>= k).run.run s = (.error failure, s₁) := by
  rw [ExceptT.run_bind, StateT.run_bind, h]
  rfl

theorem Calls.keys_eq (h : Calls f s entries s' made) :
    made.map Prod.fst = entries.map Prod.fst := by
  induction h with
  | nil => rfl
  | cons _ _ ih => rw [List.map_cons, List.map_cons, ih]

theorem Calls.mapM_eq (h : Calls f s entries s' made) :
    (entries.mapM (transform f)).run.run s = (.ok made, s') := by
  induction h with
  | nil => rfl
  | cons h _ ih =>
    rw [List.mapM_cons, transform, bind_assoc, run_bind_ok h, pure_bind, run_bind_ok ih]
    rfl

/-- Either all calls succeed, or there is a first one that fails. -/
theorem calls_or_failure (f : Variable → A → ExceptT E (StateM τ) B) (s : τ)
    (entries : List (Variable × A)) :
    (∃ s' made, Calls f s entries s' made) ∨
      ∃ before v a after s₁ made failure s₂, entries = before ++ (v, a) :: after ∧
        Calls f s before s₁ made ∧ (f v a).run.run s₁ = (.error failure, s₂) := by
  induction entries generalizing s with
  | nil => exact .inl ⟨s, [], .nil s⟩
  | cons entry rest ih =>
    obtain ⟨v, a⟩ := entry
    rcases hcall : (f v a).run.run s with ⟨failure | b, s₁⟩
    · exact .inr ⟨[], v, a, rest, s, [], failure, s₁, rfl, .nil s, hcall⟩
    · obtain ⟨s₂, made, hcalls⟩ | ⟨before, w, x, after, s₂, made, failure, s₃, hrest, hcalls, hw⟩ :=
        ih s₁
      · exact .inl ⟨s₂, _, .cons hcall hcalls⟩
      · exact .inr ⟨(v, a) :: before, w, x, after, s₂, _, failure, s₃,
          congrArg ((v, a) :: ·) hrest, .cons hcall hcalls, hw⟩

/-- **Transforming calls the function once per entry in order**, up to the first failure. -/
theorem Indexed.mapsInOrder (h : m.Indexed) (f : Variable → A → ExceptT E (StateM τ) B) (s : τ) :
    MapsInOrder f m s := by
  obtain ⟨s', made, hcalls⟩ | ⟨before, v, a, after, s₁, made, failure, s₂, hentries, hcalls, hv⟩ :=
    calls_or_failure f s m.entries
  · have hkept : (ofList m.comparison made).entries = made := by
      refine entries_ofList_of_nodup ?_
      rw [hcalls.keys_eq]
      exact h.nodup
    refine .inl ⟨s', ofList m.comparison made, by rwa [hkept], comparison_ofList _ _, ?_,
      indexed_ofList _ _, ?_⟩
    · rw [keys, keys, hkept, hcalls.keys_eq]
    · rw [VariableMap.mapM_eq, run_bind_ok hcalls.mapM_eq]
      rfl
  · refine .inr ⟨before, v, a, after, s₁, made, failure, s₂, hentries, hcalls, hv, ?_⟩
    rw [VariableMap.mapM_eq, hentries, List.mapM_append, bind_assoc, run_bind_ok hcalls.mapM_eq,
      List.mapM_cons, transform, bind_assoc, bind_assoc, bind_assoc, run_bind_error hv]

end Calls

/-! ## The map after any run of insertions -/

/-- What a map holds after these insertions. -/
structure Records (c : NameComparison) (insertions : List (Variable × A)) (m : VariableMap A) :
    Prop where
  comparison : m.comparison = c
  /-- No two entries have the same variable. -/
  nodup : (m.keys.map c.key).Nodup
  /-- The index has the place of each entry under its key, and nothing else. -/
  index : ∀ k place, m.index.lookup k = some place ↔ (m.keys.map c.key)[place]? = some k
  get? : ∀ v, m.get? v = (lastOf c insertions v).map Prod.snd
  /-- Each entry is the last insertion of its variable; they stand in the order of the first. -/
  entries : m.entries.map some =
    (Expr.firstOccurrences c [] (insertions.map Prod.fst)).map (lastOf c insertions)

/--
**A map can be told from the insertions made**, for either comparison: each variable has one
entry, which the index finds, with the value and the spelling of its last insertion and in the
order of the first ones. Its values can be transformed one after another.
-/
theorem insertions_recorded (c : NameComparison) (insertions : List (Variable × A)) :
    Records c insertions (ofList c insertions) ∧
      ∀ {B E τ : Type} (f : Variable → A → ExceptT E (StateM τ) B) (s : τ),
        MapsInOrder f (ofList c insertions) s := by
  have hindexed := indexed_ofList c insertions
  have hkeys : (ofList c insertions).lookupKeys = (ofList c insertions).keys.map c.key := by
    rw [lookupKeys, comparison_ofList]
  refine ⟨⟨comparison_ofList c insertions, ?_, ?_, get?_ofList insertions,
    entries_ofList insertions⟩, hindexed.mapsInOrder⟩
  · rw [← hkeys]
    exact hindexed.nodup
  · rw [← hkeys]
    exact hindexed

/-- The entry keeps its place and takes the later spelling. -/
example : (ofList .caseInsensitive
    [(.voltage "OUT", 1), (.voltage "in", 2), (.voltage "out", 3)]).entries =
      [(.voltage "out", 3), (.voltage "in", 2)] := rfl

end VariableMap

end CircuitExpr
