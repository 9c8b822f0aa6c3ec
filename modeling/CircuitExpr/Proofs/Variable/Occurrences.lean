import Mathlib
import CircuitExpr.Proofs.Behavior.Session

/-!
# The variables of an expression are what it depends on

A variable stands at a place of an expression, which is the way to it: the number of a part, then
the number of a part of that, and so on. Parts are numbered in the order of evaluation, so the
order of places, as of words, is the order in which an expression is gone through.

The list of variables is made from the occurrences in this order, and whether an expression
depends on a variable is asked apart from that. Here the two are related, and with them the
variables that a behavior is derived by when nothing else is asked for.

## Main statements

* `Expr.exists_located` — the occurrences are the variables at all places, from left to right
* `Expr.collect_eq` — one pass that keeps the keys seen so far finds the same list
* `Expr.vars_lists_dependencies` — the list has each variable once, where it first occurs
-/

namespace CircuitExpr.Expr

variable {K : Type} {c : NameComparison} {e : Expr K} {u v w : Variable}

/-! ## Places -/

/-- The variable at a place of an expression. -/
inductive OccursAt : Expr K → List Nat → Variable → Prop where
  | root (v : Variable) : OccursAt (.var v) [] v
  | part {e d : Expr K} {i : Nat} {place : List Nat} {v : Variable} (hd : e.children[i]? = some d)
      (h : OccursAt d place v) : OccursAt e (i :: place) v

/-- The first place of a variable, and the spelling that it has there. -/
def FirstAt (c : NameComparison) (e : Expr K) (place : List Nat) (v : Variable) : Prop :=
  e.OccursAt place v ∧ ∀ other w, e.OccursAt other w → c.same w v = true → place ≤ other

/-- What holds of variables, and of an expression if it holds of its parts, holds of all. -/
theorem induction_children {motive : Expr K → Prop} (var : ∀ v, motive (.var v))
    (parts : ∀ e, (∀ v, e ≠ .var v) → (∀ d ∈ e.children, motive d) → motive e) (e : Expr K) :
    motive e := by
  induction e using Expr.induction with
  | const value => exact parts _ nofun nofun
  | var v => exact var v
  | unary op operand ih => exact parts _ nofun (List.forall_mem_singleton.mpr ih)
  | binary op left right ihl ihr =>
    exact parts _ nofun (List.forall_mem_cons.mpr ⟨ihl, List.forall_mem_singleton.mpr ihr⟩)
  | cond condition whenTrue whenFalse ihc iht ihf =>
    exact parts _ nofun (List.forall_mem_cons.mpr
      ⟨ihc, List.forall_mem_cons.mpr ⟨iht, List.forall_mem_singleton.mpr ihf⟩⟩)
  | call name arguments ih => exact parts _ nofun ih
  | ext name arguments ih => exact parts _ nofun ih

theorem occurrencesAll_eq_flatMap (es : List (Expr K)) :
    occurrencesAll es = es.flatMap occurrences := by
  induction es with
  | nil => rfl
  | cons e rest ih => rw [occurrencesAll, List.flatMap_cons, ih]

/-- The occurrences in an expression are those in its parts, one part after another. -/
theorem occurrences_eq_flatMap (h : ∀ v, e ≠ .var v) :
    e.occurrences = e.children.flatMap occurrences := by
  cases e with
  | var v => exact absurd rfl (h v)
  | const value => rfl
  | unary op operand => simp [occurrences, children]
  | binary op left right => simp [occurrences, children]
  | cond condition whenTrue whenFalse => simp [occurrences, children]
  | call name arguments => exact occurrencesAll_eq_flatMap arguments
  | ext name arguments => exact occurrencesAll_eq_flatMap arguments

theorem occursAt_iff (h : ∀ v, e ≠ .var v) {place : List Nat} :
    e.OccursAt place v ↔
      ∃ i d rest, place = i :: rest ∧ e.children[i]? = some d ∧ d.OccursAt rest v := by
  constructor
  · rintro (_ | ⟨hd, hrest⟩)
    · exact absurd rfl (h v)
    · exact ⟨_, _, _, rfl, hd, hrest⟩
  · rintro ⟨i, d, rest, rfl, hd, hrest⟩
    exact .part hd hrest

/-- The variables at all places of an expression, from left to right. -/
structure Located (e : Expr K) (ps : List (List Nat × Variable)) : Prop where
  occurring : ps.map Prod.snd = e.occurrences
  sorted : ps.Pairwise fun p q => p.1 < q.1
  mem : ∀ place v, (place, v) ∈ ps ↔ e.OccursAt place v

/-- The same of a list of expressions, the first of which has this number. -/
structure LocatedEach (start : Nat) (es : List (Expr K)) (ps : List (List Nat × Variable)) :
    Prop where
  occurring : ps.map Prod.snd = es.flatMap occurrences
  sorted : ps.Pairwise fun p q => p.1 < q.1
  mem : ∀ place v, (place, v) ∈ ps ↔
    ∃ i d rest, place = (start + i) :: rest ∧ es[i]? = some d ∧ d.OccursAt rest v

/-- The places of an expression, where it is part `start` of a larger one. -/
def under (start : Nat) (ps : List (List Nat × Variable)) : List (List Nat × Variable) :=
  ps.map fun p => (start :: p.1, p.2)

theorem mem_under {start : Nat} {ps : List (List Nat × Variable)} {place : List Nat} :
    (place, v) ∈ under start ps ↔ ∃ rest, place = start :: rest ∧ (rest, v) ∈ ps := by
  rw [under, List.mem_map]
  constructor
  · rintro ⟨⟨rest, _⟩, hmem, heq⟩
    obtain ⟨rfl, rfl⟩ := Prod.mk.inj heq
    exact ⟨rest, rfl, hmem⟩
  · rintro ⟨rest, rfl, hmem⟩
    exact ⟨_, hmem, rfl⟩

theorem LocatedEach.cons {start : Nat} {es : List (Expr K)} {ps qs : List (List Nat × Variable)}
    (h : e.Located ps) (hes : LocatedEach (start + 1) es qs) :
    LocatedEach start (e :: es) (under start ps ++ qs) where
  occurring := by
    rw [List.map_append, hes.occurring, List.flatMap_cons, ← h.occurring, under, List.map_map]
    rfl
  sorted := by
    rw [List.pairwise_append]
    refine ⟨?_, hes.sorted, ?_⟩
    · rw [under, List.pairwise_map]
      exact h.sorted.imp fun hlt => List.cons_lt_cons_iff.mpr (.inr ⟨rfl, hlt⟩)
    · rintro ⟨place, v⟩ hp ⟨other, w⟩ hq
      obtain ⟨rest, rfl, -⟩ := mem_under.mp hp
      obtain ⟨i, -, rest', rfl, -, -⟩ := (hes.mem _ _).mp hq
      exact List.cons_lt_cons_iff.mpr (.inl (by omega))
  mem place v := by
    rw [List.mem_append, mem_under, hes.mem]
    constructor
    · rintro (⟨rest, rfl, hmem⟩ | ⟨i, d, rest, rfl, hd, hrest⟩)
      · exact ⟨0, e, rest, rfl, rfl, (h.mem _ _).mp hmem⟩
      · exact ⟨i + 1, d, rest, by rw [Nat.add_right_comm, Nat.add_assoc], hd, hrest⟩
    · rintro ⟨i, d, rest, rfl, hd, hrest⟩
      cases i with
      | zero =>
        obtain rfl := Option.some.inj hd
        exact .inl ⟨rest, rfl, (h.mem _ _).mpr hrest⟩
      | succ i => exact .inr ⟨i, d, rest, by rw [Nat.add_right_comm, Nat.add_assoc], hd, hrest⟩

theorem exists_locatedEach {es : List (Expr K)} (h : ∀ e ∈ es, ∃ ps, e.Located ps) (start : Nat) :
    ∃ ps, LocatedEach start es ps := by
  induction es generalizing start with
  | nil => exact ⟨[], rfl, .nil, fun place v => ⟨nofun, fun ⟨_, _, _, _, hd, _⟩ => nomatch hd⟩⟩
  | cons e rest ih =>
    obtain ⟨⟨ps, hps⟩, hrest⟩ := List.forall_mem_cons.mp h
    obtain ⟨qs, hqs⟩ := ih hrest (start + 1)
    exact ⟨_, hqs.cons hps⟩

/-- **The occurrences are the variables at all places in order.** -/
theorem exists_located (e : Expr K) : ∃ ps, e.Located ps := by
  induction e using induction_children with
  | var v =>
    refine ⟨[([], v)], rfl, List.pairwise_singleton _ _, fun place w => ?_⟩
    rw [List.mem_singleton]
    constructor
    · rintro ⟨⟩
      exact .root v
    · rintro (_ | ⟨hd, -⟩)
      · rfl
      · exact nomatch hd
  | parts e hvar ih =>
    obtain ⟨ps, hps⟩ := exists_locatedEach ih 0
    refine ⟨ps, ?_, hps.sorted, fun place w => ?_⟩
    · rw [hps.occurring, occurrences_eq_flatMap hvar]
    · rw [hps.mem, occursAt_iff hvar]
      simp only [Nat.zero_add]

/-! ## First occurrences -/

/-- The first place of a variable among these. -/
def FirstIn (c : NameComparison) (ps : List (List Nat × Variable)) (place : List Nat)
    (v : Variable) : Prop :=
  (place, v) ∈ ps ∧ ∀ other w, (other, w) ∈ ps → c.same w v = true → place ≤ other

theorem Located.firstAt {ps : List (List Nat × Variable)} {place : List Nat} (h : e.Located ps)
    (hv : FirstIn c ps place v) : e.FirstAt c place v :=
  ⟨(h.mem _ _).mp hv.1, fun other w hw => hv.2 other w ((h.mem _ _).mpr hw)⟩

theorem FirstIn.cons {ps : List (List Nat × Variable)} {place : List Nat} {p : List Nat × Variable}
    (h : FirstIn c ps place v) (hp : c.key p.2 ≠ c.key v) : FirstIn c (p :: ps) place v := by
  refine ⟨List.mem_cons_of_mem _ h.1, fun other w hw hsame => ?_⟩
  rcases List.mem_cons.mp hw with rfl | hw
  · exact absurd (NameComparison.same_iff_key_eq.mp hsame) hp
  · exact h.2 other w hw hsame

theorem firstIn_head {ps : List (List Nat × Variable)} {p : List Nat × Variable}
    (hp : ∀ q ∈ ps, p.1 < q.1) : FirstIn c (p :: ps) p.1 p.2 := by
  refine ⟨List.mem_cons_self, fun other w hw _ => ?_⟩
  rcases List.mem_cons.mp hw with rfl | hw
  · exact le_rfl
  · exact le_of_lt (hp _ hw)

/-- The first variable comes first before the second one does. -/
def FirstBefore (c : NameComparison) (e : Expr K) (v w : Variable) : Prop :=
  ∃ place other, e.FirstAt c place v ∧ e.FirstAt c other w ∧ place < other

theorem FirstBefore.not_same (h : FirstBefore c e v w) : c.same v w = false := by
  obtain ⟨place, other, hv, hw, hlt⟩ := h
  refine Bool.eq_false_iff.mpr fun hsame => ?_
  exact absurd (hw.2 place v hv.1 hsame) (not_le_of_gt hlt)

/-- Variables that each have a first place among these, in the order of those places. -/
structure FirstsOf (c : NameComparison) (ps : List (List Nat × Variable)) (vs : List Variable) :
    Prop where
  firstIn : ∀ v ∈ vs, ∃ place, FirstIn c ps place v
  order : vs.Pairwise fun v w =>
    ∃ place other, FirstIn c ps place v ∧ FirstIn c ps other w ∧ place < other

/-- A place in front changes nothing for variables that are not the one there. -/
theorem FirstsOf.skip {ps : List (List Nat × Variable)} {vs : List Variable}
    {p : List Nat × Variable} (h : FirstsOf c ps vs) (hvs : ∀ v ∈ vs, c.key p.2 ≠ c.key v) :
    FirstsOf c (p :: ps) vs := by
  refine ⟨fun v hv => ?_, h.order.imp_of_mem fun {v w} hv hw hvw => ?_⟩
  · obtain ⟨place, hplace⟩ := h.firstIn v hv
    exact ⟨place, hplace.cons (hvs v hv)⟩
  · obtain ⟨place, other, hplace, hother, hlt⟩ := hvw
    exact ⟨place, other, hplace.cons (hvs v hv), hother.cons (hvs w hw), hlt⟩

/-- The variable in front comes first. -/
theorem FirstsOf.cons {ps : List (List Nat × Variable)} {vs : List Variable}
    {p : List Nat × Variable} (h : FirstsOf c ps vs) (hp : ∀ q ∈ ps, p.1 < q.1)
    (hvs : ∀ v ∈ vs, c.key p.2 ≠ c.key v) : FirstsOf c (p :: ps) (p.2 :: vs) := by
  have hhead : FirstIn c (p :: ps) p.1 p.2 := firstIn_head hp
  obtain ⟨hfirst, horder⟩ := h.skip hvs
  refine ⟨List.forall_mem_cons.mpr ⟨⟨p.1, hhead⟩, hfirst⟩, List.pairwise_cons.mpr ⟨?_, horder⟩⟩
  intro v hv
  obtain ⟨place, hplace⟩ := h.firstIn v hv
  exact ⟨p.1, place, hhead, hplace.cons (hvs v hv), hp _ hplace.1⟩

/-- What is left where repetitions are dropped is left at its first place, in order. -/
theorem firstsOf_firstOccurrences {ps : List (List Nat × Variable)}
    (h : ps.Pairwise fun p q => p.1 < q.1) (seen : List VariableKey) :
    FirstsOf c ps (firstOccurrences c seen (ps.map Prod.snd)) := by
  induction ps generalizing seen with
  | nil => exact ⟨nofun, .nil⟩
  | cons p rest ih =>
    obtain ⟨hp, hrest⟩ := List.pairwise_cons.mp h
    -- a variable that is left further on is another one than all that were seen
    have hother : ∀ seen : List VariableKey, c.key p.2 ∈ seen →
        ∀ v ∈ firstOccurrences c seen (rest.map Prod.snd), c.key p.2 ≠ c.key v := by
      intro seen hseen v hv he
      exact (mem_map_key_firstOccurrences.mp (List.mem_map_of_mem hv)).2 (he ▸ hseen)
    rw [List.map_cons, firstOccurrences]
    split
    · next hseen => exact (ih hrest seen).skip (hother _ (List.contains_iff_mem.mp hseen))
    · exact (ih hrest _).cons hp (hother _ List.mem_cons_self)

/-! ## Dependencies -/

theorem anyDependsOn_iff {es : List (Expr K)}
    (h : ∀ e ∈ es, dependsOn c u e = true ↔ ∃ v ∈ e.occurrences, c.same v u = true) :
    anyDependsOn c u es = true ↔ ∃ v ∈ occurrencesAll es, c.same v u = true := by
  induction es with
  | nil => exact ⟨nofun, nofun⟩
  | cons e rest ih =>
    obtain ⟨he, hrest⟩ := List.forall_mem_cons.mp h
    simp only [anyDependsOn, occurrencesAll, Bool.or_eq_true, he, ih hrest, List.mem_append,
      or_and_right, exists_or]

/-- An expression depends on what occurs in it. -/
theorem dependsOn_iff (e : Expr K) :
    dependsOn c u e = true ↔ ∃ v ∈ e.occurrences, c.same v u = true := by
  induction e using Expr.induction with
  | const value => exact ⟨nofun, nofun⟩
  | var v => simp only [dependsOn, occurrences, List.mem_singleton, exists_eq_left]
  | unary op operand ih => exact ih
  | binary op left right ihl ihr =>
    simp only [dependsOn, occurrences, Bool.or_eq_true, ihl, ihr, List.mem_append, or_and_right,
      exists_or]
  | cond condition whenTrue whenFalse ihc iht ihf =>
    simp only [dependsOn, occurrences, Bool.or_eq_true, ihc, iht, ihf, List.mem_append,
      or_and_right, exists_or]
  | call name arguments ih => exact anyDependsOn_iff ih
  | ext name arguments ih => exact anyDependsOn_iff ih

theorem exists_mem_vars_iff :
    (∃ v ∈ e.vars c, c.same v u = true) ↔ ∃ v ∈ e.occurrences, c.same v u = true := by
  have hkeys : c.key u ∈ (firstOccurrences c [] e.occurrences).map c.key ↔
      c.key u ∈ e.occurrences.map c.key ∧ c.key u ∉ [] := mem_map_key_firstOccurrences
  rw [vars]
  simpa only [NameComparison.same_iff_key_eq, List.mem_map, List.not_mem_nil, not_false_eq_true,
    and_true] using hkeys

/-- A list has the variables of a kind that an expression depends on. -/
structure Lists (c : NameComparison) (e : Expr K) (P : Variable → Prop) (vs : List Variable) :
    Prop where
  kind : ∀ v ∈ vs, P v
  dependsOn : ∀ u, P u → (dependsOn c u e = true ↔ ∃ v ∈ vs, c.same v u = true)
  distinct : vs.Pairwise fun v w => c.same v w = false
  /-- Each is spelled as where it first occurs. -/
  spelling : ∀ v ∈ vs, ∃ place, e.FirstAt c place v
  order : vs.Pairwise (FirstBefore c e)

theorem lists_vars (c : NameComparison) (e : Expr K) : Lists c e (fun _ => True) (e.vars c) := by
  obtain ⟨ps, hps⟩ := exists_located e
  have hfirsts : FirstsOf c ps (e.vars c) := by
    rw [vars, ← hps.occurring]
    exact firstsOf_firstOccurrences hps.sorted []
  have hbefore : (e.vars c).Pairwise (FirstBefore c e) := by
    refine hfirsts.order.imp ?_
    rintro v w ⟨place, other, hv, hw, hlt⟩
    exact ⟨place, other, hps.firstAt hv, hps.firstAt hw, hlt⟩
  refine ⟨fun _ _ => trivial, fun u _ => ?_, hbefore.imp FirstBefore.not_same, fun v hv => ?_,
    hbefore⟩
  · rw [dependsOn_iff, exists_mem_vars_iff]
  · obtain ⟨place, hplace⟩ := hfirsts.firstIn v hv
    exact ⟨place, hps.firstAt hplace⟩

/-- Leaving out variables of other kinds. -/
theorem Lists.filter {P : Variable → Prop} {vs : List Variable} (h : Lists c e P vs)
    (p : Variable → Bool) (hp : ∀ {v w}, c.same v w = true → p v = p w) :
    Lists c e (fun v => P v ∧ p v = true) (vs.filter p) where
  kind v hv := ⟨h.kind v (List.mem_filter.mp hv).1, (List.mem_filter.mp hv).2⟩
  dependsOn u hu := by
    rw [h.dependsOn u hu.1]
    refine exists_congr fun v => and_congr_left fun hsame => ?_
    rw [List.mem_filter, hp hsame, hu.2, and_iff_left rfl]
  distinct := h.distinct.filter p
  spelling v hv := h.spelling v (List.mem_filter.mp hv).1
  order := h.order.filter p

theorem Lists.congr {P Q : Variable → Prop} {vs : List Variable} (h : Lists c e P vs)
    (hPQ : ∀ v, P v ↔ Q v) : Lists c e Q vs :=
  ⟨fun v hv => (hPQ v).mp (h.kind v hv), fun u hu => h.dependsOn u ((hPQ u).mpr hu), h.distinct,
    h.spelling, h.order⟩

/-- Voltages and currents. -/
def IsUnknown (v : Variable) : Prop := v.kind = .voltage ∨ v.kind = .current

theorem isUnknown_iff : v.isUnknown = true ↔ IsUnknown v := by
  rw [Variable.isUnknown, IsUnknown]
  cases v.kind <;> decide

theorem lists_unknowns (c : NameComparison) (e : Expr K) : Lists c e IsUnknown (e.unknowns c) := by
  refine ((lists_vars c e).filter Variable.isUnknown fun hsame => ?_).congr fun v => ?_
  · have hkey := NameComparison.same_iff_key_eq.mp hsame
    exact congrArg (· != .parameter) (congrArg VariableKey.kind hkey)
  · rw [true_and, isUnknown_iff]

/-! ## One pass -/

/-- Keeps a variable unless its key has been seen. -/
def collectVariable (c : NameComparison) (s : List VariableKey × List Variable) (v : Variable) :
    List VariableKey × List Variable :=
  if s.1.contains (c.key v) then s else (c.key v :: s.1, s.2 ++ [v])

mutual

/-- Goes through an expression once, with the keys seen and the variables found so far. -/
def collect (c : NameComparison) (s : List VariableKey × List Variable) :
    Expr K → List VariableKey × List Variable
  | .const _ => s
  | .var v => collectVariable c s v
  | .unary _ operand => collect c s operand
  | .binary _ left right => collect c (collect c s left) right
  | .cond condition whenTrue whenFalse =>
    collect c (collect c (collect c s condition) whenTrue) whenFalse
  | .call _ arguments | .ext _ arguments => collectEach c s arguments

/-- Goes through several expressions, one after another. -/
def collectEach (c : NameComparison) (s : List VariableKey × List Variable) :
    List (Expr K) → List VariableKey × List Variable
  | [] => s
  | e :: rest => collectEach c (collect c s e) rest

end

theorem collectEach_eq_foldl {es : List (Expr K)}
    (h : ∀ e ∈ es, ∀ s, collect c s e = e.occurrences.foldl (collectVariable c) s)
    (s : List VariableKey × List Variable) :
    collectEach c s es = (occurrencesAll es).foldl (collectVariable c) s := by
  induction es generalizing s with
  | nil => rfl
  | cons e rest ih =>
    obtain ⟨he, hrest⟩ := List.forall_mem_cons.mp h
    rw [collectEach, occurrencesAll, List.foldl_append, ← he, ih hrest]

/-- The pass takes one variable after another. -/
theorem collect_eq_foldl (e : Expr K) (s : List VariableKey × List Variable) :
    collect c s e = e.occurrences.foldl (collectVariable c) s := by
  induction e using Expr.induction generalizing s with
  | const value => rfl
  | var v => rfl
  | unary op operand ih => exact ih s
  | binary op left right ihl ihr => rw [collect, occurrences, List.foldl_append, ← ihl, ihr]
  | cond condition whenTrue whenFalse ihc iht ihf =>
    rw [collect, occurrences, List.foldl_append, List.foldl_append, ← ihc, ← iht, ihf]
  | call name arguments ih => exact collectEach_eq_foldl ih s
  | ext name arguments ih => exact collectEach_eq_foldl ih s

/-- **One pass finds each variable once**, behind what was found before. -/
theorem collect_eq (e : Expr K) (s : List VariableKey × List Variable) :
    (collect c s e).2 = s.2 ++ firstOccurrences c s.1 e.occurrences := by
  rw [collect_eq_foldl]
  induction e.occurrences generalizing s with
  | nil => rw [firstOccurrences, List.append_nil]; rfl
  | cons v rest ih =>
    rw [List.foldl_cons, ih, firstOccurrences, collectVariable]
    split
    · rfl
    · rw [List.append_assoc, List.singleton_append]

/-! ## Default targets -/

/-- Targets that are given once each are kept as they are. -/
theorem keys_deriveTargets_of_distinct [Literal K] {t : FunctionTable K} {targets : List Variable}
    {m : VariableMap (Expr K)} (h : e.deriveTargets t c targets = .ok m)
    (hdistinct : targets.Pairwise fun v w => c.same v w = false) : m.keys = targets := by
  obtain ⟨derived, -, rfl, rfl⟩ := exists_derived h
  rw [VariableMap.keys, VariableMap.entries_ofList_of_nodup]
  rw [List.Nodup, List.pairwise_map]
  exact hdistinct.imp NameComparison.not_same_iff_key_ne.mp

/--
**The variables of an expression are what it depends on**: each variable once, in the order in
which they first occur and as they are spelled there. One pass over the expression finds them. So
where no targets are asked for, a behavior is derived by exactly those voltages and currents that
its expression depends on, each once.
-/
theorem vars_lists_dependencies [Literal K] (e : Expr K) :
    (∀ c, Lists c e (fun _ => True) (e.vars c) ∧ e.vars c = (collect c ([], []) e).2) ∧
      (∀ (c : NameComparison) (options : BuildOptions K), options.targets = none →
        Lists c e IsUnknown (Behavior.targetsOf c e options)) ∧
      ∀ {D σ : Type} [Domain D K] (env : Environment K D σ) (options : BuildOptions K)
        (b : Behavior K D σ), Behavior.build env e options = .ok b → options.targets = none →
          b.targets = Behavior.targetsOf env.bindings.comparison e options := by
  have htargets : ∀ (c : NameComparison) (options : BuildOptions K), options.targets = none →
      Lists c e IsUnknown (Behavior.targetsOf c e options) := by
    intro c options hnone
    rw [Behavior.targetsOf, hnone, Option.getD_none]
    exact lists_unknowns c e
  refine ⟨fun c => ⟨lists_vars c e, ?_⟩, htargets, fun env options b hb hnone => ?_⟩
  · rw [collect_eq, List.nil_append]
    rfl
  · obtain ⟨-, -, hexpressions, -⟩ := Behavior.build_eq_ok hb
    exact keys_deriveTargets_of_distinct hexpressions (htargets _ _ hnone).distinct

/-- A variable that an expression has twice is one target. -/
theorem vars_lists_dependencies_doubled :
    ∃ b, Behavior.build Environment.doubling .doubled .default = .ok b ∧
      b.targets = [.sample] := by
  obtain ⟨b, hb⟩ : ∃ b, Behavior.build Environment.doubling .doubled .default = .ok b := ⟨_, rfl⟩
  have htargets := (vars_lists_dependencies .doubled).2.2 Environment.doubling .default b hb rfl
  exact ⟨b, hb, htargets.trans (by decide)⟩

/-- A variable is listed as it is first spelled. -/
example : (Expr.binary .mul (.var (.voltage "OUT"))
    (.binary .add (.var (.voltage "out")) (.var (.current "r1"))) : Expr Float).vars
      .caseInsensitive = [.voltage "OUT", .current "r1"] := by
  decide

end CircuitExpr.Expr
