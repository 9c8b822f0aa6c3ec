import Mathlib
import CircuitExpr.Expr.Variables
import CircuitExpr.Proofs.Program.Compile

/-!
# What programs refer to

A program has its sources and functions in slots, and refers to them by the numbers of the slots.
Slots are given out while the code is written: to a source when a variable is first met that is
bound to it, and to a function when it is first called, before the arguments of that call. Which
names stand in the expression, and in which case, makes no difference; what they are bound to does.

## Main statements

* `Expr.calls`, `Expr.callsMade` — the calls, each in front of those in its arguments, or behind
* `Captures.Serves` — the captures are those of an expression, and code refers to them rightly
* `Program.compiled_serves` — compiled programs refer to the captures of the optimized expression
-/

namespace CircuitExpr

open List (Forall₂)

/-! ## Calls -/

namespace Expr

variable {K : Type}

mutual

/-- The calls by name and number of arguments, each in front of those in its arguments. -/
def calls : Expr K → List (String × Nat)
  | .const _ | .var _ => []
  | .unary _ operand => calls operand
  | .binary _ left right => calls left ++ calls right
  | .cond condition whenTrue whenFalse => calls condition ++ calls whenTrue ++ calls whenFalse
  | .call name arguments => (name, arguments.length) :: callsAll arguments
  | .ext _ arguments => callsAll arguments

def callsAll : List (Expr K) → List (String × Nat)
  | [] => []
  | e :: rest => calls e ++ callsAll rest

end

mutual

/-- The calls as they are made, each behind those in its arguments. -/
def callsMade : Expr K → List (String × Nat)
  | .const _ | .var _ => []
  | .unary _ operand => callsMade operand
  | .binary _ left right => callsMade left ++ callsMade right
  | .cond condition whenTrue whenFalse =>
    callsMade condition ++ callsMade whenTrue ++ callsMade whenFalse
  | .call name arguments => callsMadeAll arguments ++ [(name, arguments.length)]
  | .ext _ arguments => callsMadeAll arguments

def callsMadeAll : List (Expr K) → List (String × Nat)
  | [] => []
  | e :: rest => callsMade e ++ callsMadeAll rest

end

end Expr

/-- What computes a call, if the function is registered and takes that many arguments. -/
def FunctionTable.native? {K : Type} (t : FunctionTable K) (call : String × Nat) : Option Native :=
  (t.resolve call.1 call.2).toOption.map FunctionDefinition.native

theorem FunctionTable.native?_of_resolve {K : Type} {t : FunctionTable K} {call : String × Nat}
    {d : FunctionDefinition K} (h : t.resolve call.1 call.2 = .ok d) :
    t.native? call = some d.native := by
  rw [native?, h]
  rfl

/-! ## Captures -/

namespace Captures

variable {K : Type} {b : Bindings} {t : FunctionTable K} {c c' : Captures}

/-- Captures sources and functions in order, each once. -/
def adding (c : Captures) (sources : List SourceId) (functions : List Native) : Captures :=
  ⟨sources.foldl adjoin c.sources, functions.foldl adjoin c.functions⟩

theorem adding_adding (c : Captures) (sources sources' : List SourceId)
    (functions functions' : List Native) :
    (c.adding sources functions).adding sources' functions' =
      c.adding (sources ++ sources') (functions ++ functions') := by
  simp only [adding, List.foldl_append]

/-- Nothing loses its slot. -/
theorem prefix_foldl_adjoin {α : Type} [DecidableEq α] (items more : List α) :
    items <+: more.foldl adjoin items := by
  induction more generalizing items with
  | nil => exact List.prefix_refl _
  | cons item more ih => exact (prefix_adjoin items item).trans (ih _)

/-- One item after another, each once, are the items without those that come again. -/
theorem foldl_adjoin_eq_eraseDups {α : Type} [DecidableEq α] (items : List α) :
    items.foldl adjoin [] = items.eraseDups := by
  induction items using List.reverseRecOn with
  | nil => rfl
  | append_singleton items item ih =>
    rw [List.foldl_append, ih, List.eraseDups_append, List.foldl_cons, List.foldl_nil, adjoin]
    by_cases h : item ∈ items
    · rw [if_pos (List.mem_eraseDups.mpr h)]
      simp [List.removeAll, h]
    · rw [if_neg (mt List.mem_eraseDups.mp h)]
      simp [List.removeAll, h, List.eraseDups_cons]

theorem nodup_eraseDups {α : Type} [DecidableEq α] (items : List α) : items.eraseDups.Nodup := by
  rw [← foldl_adjoin_eq_eraseDups]
  induction items using List.reverseRecOn with
  | nil => exact .nil
  | append_singleton items item ih =>
    rw [List.foldl_append]
    exact adjoin_nodup ih item

/-- The slot has the source of the variable. -/
def Reads (b : Bindings) (c : Captures) (v : Variable) (slot : Nat) : Prop :=
  ∃ source, b.get? v = some source ∧ c.sources[slot]? = some source

/-- A slot and a number of arguments: they are the function of the call and its arguments. -/
def Makes (t : FunctionTable K) (c : Captures) (call : String × Nat) (site : Nat × Nat) : Prop :=
  site.2 = call.2 ∧
    ∃ d, t.resolve call.1 call.2 = .ok d ∧ c.functions[site.1]? = some d.native

theorem Reads.grow {v : Variable} {slot : Nat} (h : c.Reads b v slot)
    (hsources : c.sources <+: c'.sources) : c'.Reads b v slot := by
  obtain ⟨source, hget, hslot⟩ := h
  exact ⟨source, hget, Expr.getElem?_of_prefix hsources hslot⟩

theorem Makes.grow {call : String × Nat} {site : Nat × Nat} (h : c.Makes t call site)
    (hfunctions : c.functions <+: c'.functions) : c'.Makes t call site := by
  obtain ⟨hcount, d, hd, hslot⟩ := h
  exact ⟨hcount, d, hd, Expr.getElem?_of_prefix hfunctions hslot⟩

/--
Captures of an expression, and code that refers to them by these slots, in the order of the code.
Slots are given out in the order in which sources and functions are first met, once each.
-/
structure Serves (b : Bindings) (t : FunctionTable K) (n : Expr K) (c : Captures)
    (loaded : List Nat) (made : List (Nat × Nat)) : Prop where
  sources : c.sources = (n.occurrences.filterMap b.get?).eraseDups
  functions : c.functions = (n.calls.filterMap t.native?).eraseDups
  nodup : c.sources.Nodup ∧ c.functions.Nodup
  loads : Forall₂ (c.Reads b) n.occurrences loaded
  calls : Forall₂ (c.Makes t) n.callsMade made
  /-- Variables share a slot exactly if they are bound to one source. -/
  sameSource : ∀ v w slot slot', (v, slot) ∈ n.occurrences.zip loaded →
    (w, slot') ∈ n.occurrences.zip loaded → (slot = slot' ↔ b.get? v = b.get? w)
  /-- Calls share a slot exactly if one function computes them. -/
  sameFunction : ∀ x y site site', (x, site) ∈ n.callsMade.zip made →
    (y, site') ∈ n.callsMade.zip made → (site.1 = site'.1 ↔ t.native? x = t.native? y)

/-- In a list without repetitions places are the same where items are. -/
theorem place_eq_iff {α : Type} {items : List α} (h : items.Nodup) {i j : Nat} {x y : α}
    (hi : items[i]? = some x) (hj : items[j]? = some y) : i = j ↔ x = y := by
  constructor
  · rintro rfl
    exact Option.some.inj (hi.symm.trans hj)
  · rintro rfl
    obtain ⟨hlt, -⟩ := List.getElem?_eq_some_iff.mp hi
    exact (List.getElem?_inj hlt h).mp (hi.trans hj.symm)

/-- Captures made from scratch serve code that refers to slots with the right content. -/
theorem serves_of_adding {n : Expr K} {loaded : List Nat} {made : List (Nat × Nat)}
    (hc : c = Captures.empty.adding (n.occurrences.filterMap b.get?) (n.calls.filterMap t.native?))
    (hloads : Forall₂ (c.Reads b) n.occurrences loaded)
    (hcalls : Forall₂ (c.Makes t) n.callsMade made) : c.Serves b t n loaded made := by
  have hsources : c.sources = (n.occurrences.filterMap b.get?).eraseDups := by
    rw [hc]
    exact foldl_adjoin_eq_eraseDups _
  have hfunctions : c.functions = (n.calls.filterMap t.native?).eraseDups := by
    rw [hc]
    exact foldl_adjoin_eq_eraseDups _
  have hnodup : c.sources.Nodup ∧ c.functions.Nodup := by
    rw [hsources, hfunctions]
    exact ⟨nodup_eraseDups _, nodup_eraseDups _⟩
  refine ⟨hsources, hfunctions, hnodup, hloads, hcalls, ?_, ?_⟩
  · intro v w slot slot' hv hw
    obtain ⟨source, hget, hslot⟩ := List.forall₂_zip hloads hv
    obtain ⟨source', hget', hslot'⟩ := List.forall₂_zip hloads hw
    rw [place_eq_iff hnodup.1 hslot hslot', hget, hget', Option.some_inj]
  · intro x y site site' hx hy
    obtain ⟨-, d, hd, hslot⟩ := List.forall₂_zip hcalls hx
    obtain ⟨-, d', hd', hslot'⟩ := List.forall₂_zip hcalls hy
    rw [place_eq_iff hnodup.2 hslot hslot', FunctionTable.native?_of_resolve hd,
      FunctionTable.native?_of_resolve hd', Option.some_inj]

/-- All that serves an expression has the same captures and refers to the same slots. -/
theorem Serves.unique {n : Expr K} {loaded loaded' : List Nat} {made made' : List (Nat × Nat)}
    (h : c.Serves b t n loaded made) (h' : c'.Serves b t n loaded' made') :
    c = c' ∧ loaded = loaded' ∧ made = made' := by
  obtain rfl : c = c' := by
    obtain ⟨sources, functions⟩ := c
    obtain ⟨sources', functions'⟩ := c'
    exact congrArg₂ Captures.mk (h.sources.trans h'.sources.symm)
      (h.functions.trans h'.functions.symm)
  refine ⟨rfl, List.right_unique_forall₂' ?_ h.loads h'.loads,
    List.right_unique_forall₂' ?_ h.calls h'.calls⟩
  · rintro v slot slot' ⟨source, hget, hslot⟩ ⟨source', hget', hslot'⟩
    exact (place_eq_iff h.nodup.1 hslot hslot').mpr (Option.some.inj (hget.symm.trans hget'))
  · rintro call ⟨slot, count⟩ ⟨slot', count'⟩ ⟨hcount, d, hd, hslot⟩ ⟨hcount', d', hd', hslot'⟩
    obtain rfl : d = d' := Except.ok.inj (hd.symm.trans hd')
    exact congrArg₂ Prod.mk ((place_eq_iff h.nodup.2 hslot hslot').mpr rfl)
      (hcount.trans hcount'.symm)

end Captures

/-! ## Capturing while code is written -/

namespace Expr

variable {K D σ : Type} {env : Environment K D σ}

/-- What is captured for these variables and calls, one after another. -/
def Captured (env : Environment K D σ) (vs : List Variable) (cs : List (String × Nat))
    (c c' : Captures) : Prop :=
  c' = c.adding (vs.filterMap env.bindings.get?) (cs.filterMap env.functions.native?)

theorem Captured.trans {c c' c'' : Captures} {vs vs' : List Variable}
    {cs cs' : List (String × Nat)} (h : Captured env vs cs c c')
    (h' : Captured env vs' cs' c' c'') : Captured env (vs ++ vs') (cs ++ cs') c c'' := by
  rw [Captured, h', h, Captures.adding_adding, List.filterMap_append, List.filterMap_append]

theorem Captured.sources_prefix {c c' : Captures} {vs : List Variable} {cs : List (String × Nat)}
    (h : Captured env vs cs c c') : c.sources <+: c'.sources := by
  rw [h]
  exact Captures.prefix_foldl_adjoin _ _

theorem Captured.functions_prefix {c c' : Captures} {vs : List Variable}
    {cs : List (String × Nat)} (h : Captured env vs cs c c') : c.functions <+: c'.functions := by
  rw [h]
  exact Captures.prefix_foldl_adjoin _ _

theorem captured_source {v : Variable} {source : SourceId}
    (h : env.bindings.get? v = some source) (c : Captures) :
    Captured env [v] [] c (c.withSource source) := by
  rw [Captured, List.filterMap_cons, h]
  rfl

theorem captured_function {name : String} {count : Nat} {d : FunctionDefinition K}
    (h : env.functions.resolve name count = .ok d) (c : Captures) :
    Captured env [] [(name, count)] c (c.withFunction d.native) := by
  have hnative : env.functions.native? (name, count) = some d.native :=
    FunctionTable.native?_of_resolve h
  rw [Captured, List.filterMap_cons, hnative]
  rfl

variable [Literal K] [Scalar D K]

theorem emitEach_captured {es : List (Expr K)}
    (h : ∀ e ∈ es, ∀ {a a'}, emit env e a = .ok a' →
      Captured env e.occurrences e.calls a.captures a'.captures) :
    ∀ {a a'}, emitEach env es a = .ok a' →
      Captured env (occurrencesAll es) (callsAll es) a.captures a'.captures := by
  induction es with
  | nil =>
    intro a a' ha
    rw [emitEach] at ha
    cases ha
    rfl
  | cons e rest ih =>
    intro a a' ha
    obtain ⟨he, hrest⟩ := List.forall_mem_cons.mp h
    rw [emitEach, bind_eq_ok] at ha
    obtain ⟨m, hm, hma⟩ := ha
    exact (he hm).trans (ih hrest hma)

/-- **Assembling captures what stands in the expression**, in the order in which it stands there. -/
theorem emit_captured {e : Expr K} :
    ∀ {a a'}, emit env e a = .ok a' →
      Captured env e.occurrences e.calls a.captures a'.captures := by
  induction e using Expr.induction with
  | const value =>
    intro a a' h
    rw [emit] at h
    cases h
    rfl
  | var v =>
    intro a a' h
    obtain ⟨source, hget, rfl⟩ := emit_var_eq_ok.mp h
    exact captured_source hget a.captures
  | unary op operand ih =>
    intro a a' h
    obtain ⟨m, hm, rfl⟩ := emit_unary_eq_ok.mp h
    have hoperand := ih hm
    cases op with
    | plus | minus | not => exact hoperand
  | binary op left right ihl ihr =>
    intro a a' h
    obtain ⟨-, m, hm, n, hn, rfl⟩ := emit_binary_eq_ok.mp h
    have hleft := ihl hm
    have hright := ihr hn
    exact hleft.trans hright
  | cond condition whenTrue whenFalse ihc iht ihf =>
    intro a a' h
    -- jumps and their targets capture nothing
    obtain ⟨m, hm, n, hn, o, ho, rfl⟩ := emit_cond_eq_ok.mp h
    have hcondition := ihc hm
    have htrue := iht hn
    have hfalse := ihf ho
    exact (hcondition.trans htrue).trans hfalse
  | call name arguments ih =>
    intro a a' h
    obtain ⟨d, hd, m, hm, rfl⟩ := emit_call_eq_ok.mp h
    exact (captured_function hd a.captures).trans (emitEach_captured ih hm)
  | ext name arguments =>
    intro a a' h
    rw [emit] at h
    cases h

end Expr

/-! ## References in assembled code -/

namespace Instruction

variable {D : Type}

/-- The slot of the source that is loaded. -/
def loadSlot? : Instruction D → Option Nat
  | load slot => some slot
  | _ => none

/-- The slot of the function that is called, and how many numbers it is given. -/
def callSite? : Instruction D → Option (Nat × Nat)
  | call slot argc => some (slot, argc)
  | _ => none

end Instruction

namespace Assembly

variable {K D σ α : Type} {a : Assembly D} {start mid stop : Nat}

/-- What there is to read off the instructions between two places. -/
def pick (a : Assembly D) (f : Instruction D → Option α) (start stop : Nat) : List α :=
  (List.range' start (stop - start)).filterMap fun place => a.code[place]?.bind f

theorem pick_append (f : Instruction D → Option α) (hstart : start ≤ mid) (hstop : mid ≤ stop) :
    a.pick f start stop = a.pick f start mid ++ a.pick f mid stop := by
  rw [pick, pick, pick, ← List.filterMap_append]
  congr 1
  have hmid : start + (mid - start) = mid := by omega
  have h := List.range'_append_1 (s := start) (m := mid - start) (n := stop - mid)
  rw [hmid] at h
  rw [h]
  congr 1
  omega

theorem pick_self (f : Instruction D → Option α) (start : Nat) : a.pick f start start = [] := by
  rw [pick, Nat.sub_self]
  rfl

/-- One instruction. -/
theorem Has.pick {place height : Nat} {i : Instruction D} (h : a.Has place height i)
    (f : Instruction D → Option α) : a.pick f place (place + 1) = (f i).toList := by
  rw [Assembly.pick, Nat.add_sub_cancel_left, List.range'_one, List.filterMap_cons, h.code_eq,
    Option.bind_some]
  cases f i <;> rfl

/-- All instructions. -/
theorem pick_all (a : Assembly D) (f : Instruction D → Option α) :
    a.pick f 0 a.code.size = a.code.toList.filterMap f := by
  have hcode : (List.range a.code.toList.length).filterMap (a.code.toList[·]?) = a.code.toList := by
    generalize a.code.toList = code
    induction code using List.reverseRecOn with
    | nil => rfl
    | append_singleton code i ih =>
      have hold : (List.range code.length).filterMap ((code ++ [i])[·]?) =
          (List.range code.length).filterMap (code[·]?) :=
        List.filterMap_congr fun place h => List.getElem?_append_left (List.mem_range.mp h)
      rw [List.length_append, List.length_singleton, List.range_succ, List.filterMap_append, hold,
        ih, List.filterMap_cons, List.getElem?_concat_length]
      rfl
  rw [pick, Nat.sub_zero, ← List.range_eq_range']
  conv_rhs => rw [← hcode]
  rw [List.filterMap_filterMap]
  simp

/-- The code between two places loads these variables and makes these calls. -/
structure Refers (env : Environment K D σ) (a : Assembly D) (vs : List Variable)
    (cs : List (String × Nat)) (start stop : Nat) : Prop where
  le : start ≤ stop
  loads : Forall₂ (a.captures.Reads env.bindings) vs (a.pick Instruction.loadSlot? start stop)
  calls : Forall₂ (a.captures.Makes env.functions) cs (a.pick Instruction.callSite? start stop)

variable {env : Environment K D σ} {vs vs' : List Variable} {cs cs' : List (String × Nat)}

theorem Refers.refl (env : Environment K D σ) (a : Assembly D) (start : Nat) :
    a.Refers env [] [] start start where
  le := Nat.le_refl _
  loads := by
    rw [pick_self]
    exact .nil
  calls := by
    rw [pick_self]
    exact .nil

theorem Refers.trans (h : a.Refers env vs cs start mid) (h' : a.Refers env vs' cs' mid stop) :
    a.Refers env (vs ++ vs') (cs ++ cs') start stop where
  le := Nat.le_trans h.le h'.le
  loads := by
    rw [pick_append _ h.le h'.le]
    exact List.rel_append h.loads h'.loads
  calls := by
    rw [pick_append _ h.le h'.le]
    exact List.rel_append h.calls h'.calls

theorem Has.refers {place height : Nat} {i : Instruction D} (h : a.Has place height i)
    (hloads : Forall₂ (a.captures.Reads env.bindings) vs i.loadSlot?.toList)
    (hcalls : Forall₂ (a.captures.Makes env.functions) cs i.callSite?.toList) :
    a.Refers env vs cs place (place + 1) where
  le := Nat.le_succ _
  loads := by rwa [h.pick]
  calls := by rwa [h.pick]

/-- Behind other code, an instruction that refers to nothing. -/
theorem Refers.has {height : Nat} {i : Instruction D} (h : a.Refers env vs cs start mid)
    (hi : a.Has mid height i) (hloads : i.loadSlot? = none) (hcalls : i.callSite? = none) :
    a.Refers env vs cs start (mid + 1) := by
  have hrefers : a.Refers env [] [] mid (mid + 1) :=
    hi.refers (by rw [hloads]; exact .nil) (by rw [hcalls]; exact .nil)
  have hboth := h.trans hrefers
  rwa [List.append_nil, List.append_nil] at hboth

end Assembly

namespace Expr

variable {K D σ : Type} [Scalar D K] {env : Environment K D σ} {a : Assembly D}

theorem PlacedEach.refers {es : List (Expr K)}
    (h : ∀ e ∈ es, ∀ {start depth stop}, Placed env a e start depth stop →
      a.Refers env e.occurrences e.callsMade start stop) :
    ∀ {start depth stop}, PlacedEach env a es start depth stop →
      a.Refers env (occurrencesAll es) (callsMadeAll es) start stop := by
  induction es with
  | nil =>
    rintro start depth stop rfl
    exact .refl env a _
  | cons e rest ih =>
    rintro start depth stop ⟨mid, hfirst, hrest⟩
    obtain ⟨he, hall⟩ := List.forall_mem_cons.mp h
    exact (he hfirst).trans (ih hall hrest)

/-- **The code of an expression loads its variables and makes its calls**, from left to right. -/
theorem Placed.refers {e : Expr K} :
    ∀ {start depth stop}, Placed env a e start depth stop →
      a.Refers env e.occurrences e.callsMade start stop := by
  induction e using Expr.induction with
  | const value =>
    rintro start depth stop ⟨hhas, rfl⟩
    exact hhas.refers .nil .nil
  | var v =>
    rintro start depth stop ⟨source, slot, hget, hslot, hhas, rfl⟩
    exact hhas.refers (.cons ⟨source, hget, hslot⟩ .nil) .nil
  | unary op operand ih =>
    intro start depth stop h
    cases op with
    | plus => exact ih h
    | minus | not =>
      obtain ⟨mid, hoperand, hhas, rfl⟩ := h
      exact (ih hoperand).has hhas rfl rfl
  | binary op left right ihl ihr =>
    rintro start depth stop ⟨-, mid, last, hleft, hright, hhas, rfl⟩
    exact ((ihl hleft).trans (ihr hright)).has hhas rfl rfl
  | cond condition whenTrue whenFalse ihc iht ihf =>
    rintro start depth stop ⟨branch, exit, hcondition, hbranch, htrue, hexit, hfalse⟩
    exact ((((ihc hcondition).has hbranch rfl rfl).trans (iht htrue)).has hexit rfl rfl).trans
      (ihf hfalse)
  | call name arguments ih =>
    rintro start depth stop ⟨d, slot, last, hresolve, hslot, harguments, hhas, rfl⟩
    have hcall : a.Refers env [] [(name, arguments.length)] last (last + 1) :=
      hhas.refers .nil (.cons ⟨rfl, d, hresolve, hslot⟩ .nil)
    have hall := (harguments.refers ih).trans hcall
    rwa [List.append_nil] at hall
  | ext name arguments => exact fun h => h.elim

end Expr

/-! ## Finished programs -/

namespace Program

variable {K D σ : Type}

/-- The slots of the sources that are loaded, in the order of the code. -/
def loads (p : Program K D σ) : List Nat := p.code.toList.filterMap Instruction.loadSlot?

/-- The slots of the functions that are called, with the numbers of arguments. -/
def calls (p : Program K D σ) : List (Nat × Nat) := p.code.toList.filterMap Instruction.callSite?

variable [Literal K] [Scalar D K] {env : Environment K D σ} {e : Expr K} {p : Program K D σ}

/-- A program of one expression refers to the captures of the expression. -/
theorem serves_of_assemble (h : assemble env [e] = .ok p) :
    p.captures.Serves env.bindings env.functions e p.loads p.calls := by
  obtain ⟨a, ha, hp⟩ := bind_eq_ok.mp h
  obtain rfl := Except.ok.inj hp
  have hcaptured := Expr.emitEach_captured (fun e _ => Expr.emit_captured) ha
  have hrefers := (Expr.emitEach_placed ha).placed.refers fun e _ => Expr.Placed.refers
  simp only [Expr.occurrencesAll, Expr.callsAll, Expr.callsMadeAll, List.append_nil]
    at hcaptured hrefers
  refine Captures.serves_of_adding hcaptured ?_ ?_
  · rw [loads, ofAssembly, ← a.pick_all]
    exact hrefers.loads
  · rw [calls, ofAssembly, ← a.pick_all]
    exact hrefers.calls

/-- **A compiled program refers to the captures of the optimized expression.** -/
theorem compiled_serves (h : compile env e = .ok p) :
    p.captures.Serves env.bindings env.functions (e.optimize D env.tolerances) p.loads p.calls := by
  obtain ⟨_, -, hassemble⟩ := bind_eq_ok.mp h
  exact serves_of_assemble hassemble

end Program

end CircuitExpr
