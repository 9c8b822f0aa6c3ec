import Mathlib
import CircuitExpr.Proofs.Native.Growth
import CircuitExpr.Proofs.Native.Trace

/-!
# What lowered operators compute

Behind the instructions of a draft a machine stands at a `Point`. A step of lowering that yields
the number of a value is known by what is computed up to the draft that it leaves:
`Process.Computes x act p path host cell` says that executing what `act` appends behind `p` enters
the blocks of `path`, leaves the host in the state `host`, and that the value yielded is then
`cell`. Values that were there before stay, and so do the stack slots that were taken before.

## Main statements

* `Computes.bind`, `emit_then` — one step after another
* `unary_computes`, `binary_computes` — operators
* `call_computes` — calls of captured functions
-/

namespace CircuitExpr

/-! ## Points -/

/-- Where an execution stands: behind a draft, with a machine and a state of the host. -/
structure Point (K σ : Type) where
  draft : Draft K
  machine : Machine K
  host : σ

namespace Point

variable {K σ : Type}

/-- The same place, by the lines that are left of the block. -/
def spot (p : Point K σ) (c : NativeCode K) : Spot K σ := ⟨c.rest p.draft, p.machine, p.host⟩

/-- A value that the draft has numbered is this one. -/
structure Holds (p : Point K σ) (id : ValueId) (cell : Cell K) : Prop where
  numbered : id < p.draft.next
  eq : p.machine.registers id = cell

/-- The second point has further values, and nothing else has changed. -/
structure Later (p q : Point K σ) : Prop where
  holds : ∀ {id cell}, p.Holds id cell → q.Holds id cell
  stack : q.machine.stack = p.machine.stack

section Read

variable {p : Point K σ} {id : ValueId}

theorem Holds.real [Literal K] {value : K} (h : p.Holds id (.real value)) :
    p.machine.real id = value := by
  rw [Machine.real, h.eq, Cell.toReal]

theorem Holds.flag {flag : Bool} (h : p.Holds id (.flag flag)) : p.machine.flag id = flag := by
  rw [Machine.flag, h.eq, Cell.toFlag]

end Read

end Point

/-! ## Stored numbers -/

namespace Machine

variable {K : Type} {m : Machine K} {slot index : Nat} {values : List K}

/-- Numbers stored next to each other, from an index on. -/
def storeAll (m : Machine K) (slot : Nat) : Nat → List K → Machine K
  | _, [] => m
  | index, u :: rest => (m.store slot index u).storeAll slot (index + 1) rest

theorem storeAll_registers : (m.storeAll slot index values).registers = m.registers := by
  induction values generalizing m index with
  | nil => rfl
  | cons u rest ih => exact ih

theorem storeAll_stack_ne {other : Nat} (h : other ≠ slot) (i : Nat) :
    (m.storeAll slot index values).stack other i = m.stack other i := by
  induction values generalizing m index with
  | nil => rfl
  | cons u rest ih => exact ih.trans (if_neg fun hboth => h hboth.1)

theorem storeAll_stack_lt {i : Nat} (h : i < index) :
    (m.storeAll slot index values).stack slot i = m.stack slot i := by
  induction values generalizing m index with
  | nil => rfl
  | cons u rest ih =>
    exact (ih (Nat.lt_succ_of_lt h)).trans (if_neg fun hboth => Nat.ne_of_lt h hboth.2)

theorem storeAll_stack_add {i : Nat} {u : K} (h : values[i]? = some u) :
    (m.storeAll slot index values).stack slot (index + i) = u := by
  induction values generalizing m index i with
  | nil => exact nomatch h
  | cons first rest ih =>
    cases i with
    | zero =>
      rw [List.getElem?_cons_zero] at h
      cases h
      exact (storeAll_stack_lt (Nat.lt_succ_self _)).trans (if_pos ⟨rfl, rfl⟩)
    | succ i =>
      rw [List.getElem?_cons_succ] at h
      rw [Nat.add_succ, ← Nat.succ_add]
      exact ih h

/-- The numbers stored are read back. -/
theorem arguments_storeAll (m : Machine K) (slot : Nat) (values : List K) :
    (m.storeAll slot 0 values).arguments slot values.length = values := by
  refine List.ext_getElem (by simp [arguments]) fun i hi hi' => ?_
  simp only [arguments, List.getElem_map, List.getElem_range]
  have h : (m.storeAll slot 0 values).stack slot (0 + i) = values[i] :=
    storeAll_stack_add (List.getElem?_eq_getElem hi')
  rwa [Nat.zero_add] at h

end Machine

namespace Process

open List (Forall₂)
open Lowering NativeCode

variable {K σ : Type} [RealFunctions K] {x : Process K σ}

/-- Execution gets from a point to a later one and leaves alone what there was. -/
structure Follows (x : Process K σ) (p : Point K σ) (path : List BlockId) (q : Point K σ) :
    Prop where
  leads : x.Leads (p.spot x.code) path (q.spot x.code)
  next : p.draft.next ≤ q.draft.next
  slots : p.draft.slots ≤ q.draft.slots
  registers : ∀ id < p.draft.next, q.machine.registers id = p.machine.registers id
  stack : ∀ slot < p.draft.slots, ∀ i, q.machine.stack slot i = p.machine.stack slot i

theorem Follows.refl (p : Point K σ) : x.Follows p [] p :=
  ⟨.refl _, Nat.le_refl _, Nat.le_refl _, fun _ _ => rfl, fun _ _ _ => rfl⟩

theorem Follows.trans {p q r : Point K σ} {path path' : List BlockId} (h : x.Follows p path q)
    (h' : x.Follows q path' r) : x.Follows p (path ++ path') r where
  leads := h.leads.trans h'.leads
  next := Nat.le_trans h.next h'.next
  slots := Nat.le_trans h.slots h'.slots
  registers id hid := by rw [h'.registers id (Nat.lt_of_lt_of_le hid h.next), h.registers id hid]
  stack slot hslot i := by
    rw [h'.stack slot (Nat.lt_of_lt_of_le hslot h.slots), h.stack slot hslot]

/-- A value stays what it is. -/
theorem Follows.holds {p q : Point K σ} {path : List BlockId} {id : ValueId} {cell : Cell K}
    (h : x.Follows p path q) (hid : p.Holds id cell) : q.Holds id cell :=
  ⟨Nat.lt_of_lt_of_le hid.numbered h.next, (h.registers id hid.numbered).trans hid.eq⟩

/-- What a step appends behind `p` computes the value that it yields. -/
def Computes (x : Process K σ) (act : Lowering K ValueId) (p : Point K σ) (path : List BlockId)
    (host : σ) (cell : Cell K) : Prop :=
  ∀ id d, act.run p.draft = .ok (id, d) → d.Within x.code →
    ∃ m, x.Follows p path ⟨d, m, host⟩ ∧ Point.Holds ⟨d, m, host⟩ id cell

theorem Computes.bind {act : Lowering K ValueId} {f : ValueId → Lowering K ValueId} {n : Nat}
    {p : Point K σ} {path path' : List BlockId} {host host' : σ} {cell cell' : Cell K}
    (h : x.Computes act p path host cell) (hgrows : ∀ id, Grows (f id) n)
    (hf : ∀ id d m, x.Follows p path ⟨d, m, host⟩ → Point.Holds ⟨d, m, host⟩ id cell →
      x.Computes (f id) ⟨d, m, host⟩ path' host' cell') :
    x.Computes (act >>= f) p (path ++ path') host' cell' := by
  intro id d hrun hwithin
  obtain ⟨id₁, d₁, hact, hrest⟩ := run_bind_eq_ok.mp hrun
  obtain ⟨m₁, hfollows₁, hholds₁⟩ := h id₁ d₁ hact ((hgrows id₁ d₁ id d hrest).within hwithin)
  obtain ⟨m, hfollows, hholds⟩ := hf id₁ d₁ m₁ hfollows₁ hholds₁ id d hrest hwithin
  exact ⟨m, hfollows₁.trans hfollows, hholds⟩

/-- One step after another within a block. -/
theorem Computes.then {act : Lowering K ValueId} {f : ValueId → Lowering K ValueId} {n : Nat}
    {p : Point K σ} {host host' : σ} {cell cell' : Cell K} (h : x.Computes act p [] host cell)
    (hgrows : ∀ id, Grows (f id) n)
    (hf : ∀ id d m, x.Follows p [] ⟨d, m, host⟩ → Point.Holds ⟨d, m, host⟩ id cell →
      x.Computes (f id) ⟨d, m, host⟩ [] host' cell') :
    x.Computes (act >>= f) p [] host' cell' :=
  h.bind hgrows hf

/-! ## Single instructions -/

section Emit

variable {p : Point K σ} {i : NativeInstruction K} {cell : Cell K}

theorem follows_compute (h : compute x.inputs p.machine i = some cell)
    (hwithin : (p.draft.push i).Within x.code) :
    x.Follows p [] ⟨p.draft.push i, p.machine.assign p.draft.next cell, p.host⟩ where
  leads := by
    rw [Point.spot, hwithin.rest_push]
    exact leads_compute h
  next := Nat.le_succ _
  slots := Nat.le_refl _
  registers id hid := if_neg (Nat.ne_of_lt hid)
  stack _ _ _ := rfl

omit [RealFunctions K] in
theorem holds_assigned (p : Point K σ) (i : NativeInstruction K) (cell : Cell K) (host : σ) :
    Point.Holds ⟨p.draft.push i, p.machine.assign p.draft.next cell, host⟩ p.draft.next cell :=
  ⟨Nat.lt_succ_self _, if_pos rfl⟩

theorem emit_computes (h : compute x.inputs p.machine i = some cell) :
    x.Computes (emit i) p [] p.host cell := by
  intro id d hrun hwithin
  cases hrun
  exact ⟨_, follows_compute h hwithin, holds_assigned p i cell p.host⟩

/-- An instruction that computes a value, and what needs it. -/
theorem emit_then {f : ValueId → Lowering K ValueId} {n : Nat} {path : List BlockId} {host : σ}
    {cell' : Cell K} (h : compute x.inputs p.machine i = some cell)
    (hgrows : ∀ id, Grows (f id) n)
    (hf : ∀ id d m, p.Later ⟨d, m, p.host⟩ → Point.Holds ⟨d, m, p.host⟩ id cell →
      x.Computes (f id) ⟨d, m, p.host⟩ path host cell') :
    x.Computes (emit i >>= f) p path host cell' := by
  intro id d hrun hwithin
  obtain ⟨id₁, d₁, hact, hrest⟩ := run_bind_eq_ok.mp hrun
  cases hact
  have hfollows := follows_compute h ((hgrows _ _ id d hrest).within hwithin)
  obtain ⟨m, hfollows', hholds⟩ := hf _ _ _ ⟨hfollows.holds, rfl⟩ (holds_assigned p i cell p.host)
    id d hrest hwithin
  exact ⟨m, hfollows.trans hfollows', hholds⟩

end Emit

/-! ## Operators -/

section Operators

variable {p : Point K σ} {id left right flag : ValueId} {u v : K} {b : Bool}

theorem truth_computes (h : p.Holds id (.real u)) :
    x.Computes (truth id) p [] p.host (.flag (Scalar.isTrue u)) := by
  refine emit_then rfl (fun _ => emit_grows _) fun half d m hlater hhalf => emit_computes ?_
  rw [compute, (hlater.holds h).real, hhalf.real]
  rfl

theorem ofFlag_computes (h : p.Holds flag (.flag b)) :
    x.Computes (ofFlag flag) p [] p.host (.real (Literal.ofBool b)) := by
  refine emit_then rfl (fun _ => (emit_grows _).then fun _ => emit_grows _)
    fun yes d m hlater hyes => ?_
  refine emit_then rfl (fun _ => emit_grows _) fun no d' m' hlater' hno => emit_computes ?_
  rw [compute, (hlater'.holds (hlater.holds h)).flag]
  cases b with
  | true => rw [if_pos rfl, (hlater'.holds hyes).eq, Literal.ofBool, if_pos rfl]
  | false => rw [if_neg Bool.false_ne_true, hno.eq, Literal.ofBool, if_neg Bool.false_ne_true]

/-- An operator in front of an operand. -/
theorem unary_computes (op : UnaryOp) (h : p.Holds id (.real u)) :
    x.Computes (unary op id) p [] p.host (.real (op.apply u)) := by
  cases op with
  | plus =>
    intro id' d hrun _
    cases hrun
    exact ⟨p.machine, .refl p, h⟩
  | minus =>
    refine emit_computes ?_
    rw [compute, h.real]
    rfl
  | not =>
    refine (truth_computes h).then
      (fun _ => (emit_grows _).then fun _ => (emit_grows _).then fun _ => emit_grows _)
      fun flag d m hfollows hflag => ?_
    refine emit_then rfl (fun _ => (emit_grows _).then fun _ => emit_grows _)
      fun yes d₁ m₁ hlater hyes => ?_
    refine emit_then rfl (fun _ => emit_grows _) fun no d₂ m₂ hlater' hno => emit_computes ?_
    rw [compute, (hlater'.holds (hlater.holds hflag)).flag]
    show some (m₂.registers (if Scalar.isTrue u then no else yes)) =
      some (.real (Scalar.ofBool (!Scalar.isTrue u)))
    cases (Scalar.isTrue u : Bool) with
    | true => rw [if_pos rfl, hno.eq]; rfl
    | false => rw [if_neg Bool.false_ne_true, (hlater'.holds hyes).eq]; rfl

theorem ordering_computes (order : FloatOrder) (hleft : p.Holds left (.real u))
    (hright : p.Holds right (.real v)) :
    x.Computes (ordering order left right) p [] p.host
      (.real (Literal.ofBool (order.holds u v))) := by
  have hcompare : compute x.inputs p.machine (.compare order left right) =
      some (.flag (order.holds u v)) := by
    rw [compute, hleft.real, hright.real]
  exact emit_then hcompare ofFlag_grows fun flag d m _ hflag => ofFlag_computes hflag

theorem equality_computes (tolerances : Tolerances K) (hleft : p.Holds left (.real u))
    (hright : p.Holds right (.real v)) :
    x.Computes (equality tolerances left right) p [] p.host
      (.real (Literal.ofBool
        (Literal.fuzzyEquals u v tolerances.relative tolerances.absolute))) := by
  refine emit_then rfl (fun _ => (emit_grows _).then fun _ => emit_grows _)
    fun relative d m hlater hrelative => ?_
  refine emit_then rfl (fun _ => emit_grows _)
    fun absolute d' m' hlater' habsolute => emit_computes ?_
  simp only [compute, List.map_cons, List.map_nil, (hlater'.holds (hlater.holds hleft)).real,
    (hlater'.holds (hlater.holds hright)).real, (hlater'.holds hrelative).real, habsolute.real,
    Routine.apply]

/-- An operator on the flags of two numbers, by an instruction that joins flags. -/
theorem logical_computes {join : ValueId → ValueId → NativeInstruction K}
    {joined : Bool → Bool → Bool}
    (hjoin : ∀ (m : Machine K) p q,
      compute x.inputs m (join p q) = some (.flag (joined (m.flag p) (m.flag q))))
    (hleft : p.Holds left (.real u)) (hright : p.Holds right (.real v)) :
    x.Computes (logical join left right) p [] p.host
      (.real (Literal.ofBool (joined (Scalar.isTrue u) (Scalar.isTrue v)))) := by
  refine (truth_computes hleft).then
    (fun _ => (truth_grows _).then fun _ => (emit_grows _).then ofFlag_grows)
    fun first d m hfollows hfirst => ?_
  refine (truth_computes (hfollows.holds hright)).then
    (fun _ => (emit_grows _).then ofFlag_grows) fun second d' m' hfollows' hsecond => ?_
  refine emit_then ?_ ofFlag_grows fun flag _ _ _ hflag => ofFlag_computes hflag
  rw [hjoin, (hfollows'.holds hfirst).flag, hsecond.flag]

/-- What is taken from one is a flag turned round. -/
theorem one_sub_ofBool (hone : (1 : K) - 1 = 0) (hzero : (1 : K) - 0 = 1) (b : Bool) :
    (1 : K) - Literal.ofBool b = Literal.ofBool !b := by
  cases b
  · exact hzero
  · exact hone

/-- An operator between two operands. -/
theorem binary_computes (hone : (1 : K) - 1 = 0) (hzero : (1 : K) - 0 = 1)
    {tolerances : Tolerances K} {op : BinaryOp} {w : K}
    (hop : op.apply tolerances u v = .ok w) (hleft : p.Holds left (.real u))
    (hright : p.Holds right (.real v)) :
    x.Computes (binary tolerances op left right) p [] p.host (.real w) := by
  cases op with
  | add | sub | mul =>
    cases hop
    refine emit_computes ?_
    rw [compute, hleft.real, hright.real]
  | mod | pow =>
    cases hop
    refine emit_computes ?_
    simp only [compute, List.map_cons, List.map_nil, hleft.real, hright.real]
    rfl
  | div =>
    cases hop
    refine emit_then rfl (fun _ => emit_grows _) fun fudge d m hlater hfudge => emit_computes ?_
    simp only [compute, List.map_cons, List.map_nil, (hlater.holds hleft).real,
      (hlater.holds hright).real, hfudge.real]
    rfl
  | lt | gt | le | ge =>
    cases hop
    exact ordering_computes _ hleft hright
  | eq =>
    cases hop
    exact equality_computes tolerances hleft hright
  | ne =>
    cases hop
    refine (equality_computes tolerances hleft hright).then
      (fun _ => (emit_grows _).then fun _ => emit_grows _) fun equal d m hfollows hequal => ?_
    refine emit_then rfl (fun _ => emit_grows _) fun one d' m' hlater hone' => emit_computes ?_
    rw [compute, hone'.real, (hlater.holds hequal).real, one_sub_ofBool hone hzero]
    rfl
  | and | or | xor =>
    cases hop
    exact logical_computes (fun _ _ _ => rfl) hleft hright

end Operators

/-! ## Calls -/

section Calls

variable {p : Point K σ} {f : Native}

theorem storeEach_leads {slot index : Nat} {ids : List ValueId} {values : List K}
    (h : Forall₂ (fun id u => p.Holds id (.real u)) ids values) {d : Draft K}
    (hrun : (storeEach slot index ids).run p.draft = .ok ((), d)) (hwithin : d.Within x.code) :
    x.Leads (p.spot x.code) []
      (Point.spot ⟨d, p.machine.storeAll slot index values, p.host⟩ x.code) := by
  induction ids generalizing p index values with
  | nil =>
    cases h
    cases hrun
    exact .refl _
  | cons id rest ih =>
    cases h with
    | @cons _ u _ values hid h =>
      obtain ⟨_, d₁, hstore, hrest⟩ := run_bind_eq_ok.mp hrun
      cases hstore
      have hwithin₁ := (storeEach_grows slot (index + 1) rest _ _ _ hrest).within hwithin
      have hline : x.Leads (p.spot x.code) []
          (Point.spot ⟨p.draft.push (.stackStore id slot index), p.machine.store slot index u,
            p.host⟩ x.code) := by
        rw [Point.spot, hwithin₁.rest_push, ← hid.real]
        exact leads_store id slot index
      -- storing changes no value
      refine hline.trans (ih (p := ⟨_, p.machine.store slot index u, p.host⟩) ?_ hrest)
      exact h.imp fun _ _ hid => ⟨Nat.lt_succ_of_lt hid.numbered, hid.eq⟩

theorem emitCall_computes {function address count : ValueId} {k slot n : Nat}
    (hget : x.code.captures.functions[k]? = some f) (hfunction : p.Holds function (.word k))
    (haddress : p.Holds address (.address slot)) (hcount : p.Holds count (.word n)) :
    let result := (x.natives f (p.machine.arguments slot n)).run p.host
    x.Computes (emit (.callFunction function address count)) p [] result.2 (.real result.1) := by
  intro result id d hrun hwithin
  cases hrun
  refine ⟨_, ?_, holds_assigned p _ _ result.2⟩
  exact {
    leads := by
      rw [Point.spot, hwithin.rest_push]
      exact leads_call hget hfunction.eq haddress.eq hcount.eq
    next := Nat.le_succ _
    slots := Nat.le_refl _
    registers := fun id hid => if_neg (Nat.ne_of_lt hid)
    stack := fun _ _ _ => rfl }

/-- A call with numbers that are stored already. -/
theorem callStored_computes {function buffer n : Nat}
    (hget : x.code.captures.functions[function]? = some f) :
    let result := (x.natives f (p.machine.arguments buffer n)).run p.host
    x.Computes (do
        let address ← emit (.stackAddress buffer)
        let slot ← emit (.wordConst function)
        let count ← emit (.wordConst n)
        emit (.callFunction slot address count)) p [] result.2 (.real result.1) := by
  refine emit_then rfl
    (fun _ => (emit_grows _).then fun _ => (emit_grows _).then fun _ => emit_grows _)
    fun address d m hlater haddress => ?_
  refine emit_then rfl (fun _ => (emit_grows _).then fun _ => emit_grows _)
    fun slot d₁ m₁ hlater₁ hslot => ?_
  refine emit_then rfl (fun _ => emit_grows _) fun count d₂ m₂ hlater₂ hcount => ?_
  have hcall := emitCall_computes hget (hlater₂.holds hslot)
    (hlater₂.holds (hlater₁.holds haddress)) hcount
  -- computing the operands of the call stores nothing
  have hstack : m₂.stack = p.machine.stack :=
    hlater₂.stack.trans (hlater₁.stack.trans hlater.stack)
  rwa [Machine.arguments, hstack] at hcall

/-- A call of a captured function. -/
theorem call_computes {function : Nat} {ids : List ValueId} {values : List K}
    (hget : x.code.captures.functions[function]? = some f)
    (h : Forall₂ (fun id u => p.Holds id (.real u)) ids values) :
    let result := (x.natives f values).run p.host
    x.Computes (call function ids) p [] result.2 (.real result.1) := by
  intro result id d hrun hwithin
  obtain ⟨buffer, d₁, htake, hrun⟩ := run_bind_eq_ok.mp hrun
  cases htake
  obtain ⟨_, d₂, hstore, hrun⟩ := run_bind_eq_ok.mp hrun
  let stored : Point K σ := ⟨d₂, p.machine.storeAll p.draft.slots 0 values, p.host⟩
  have hread : stored.machine.arguments p.draft.slots ids.length = values := by
    rw [h.length_eq, Machine.arguments_storeAll]
  obtain ⟨m, hfollows, hholds⟩ := callStored_computes (p := stored) hget id d hrun hwithin
  rw [hread] at hfollows hholds
  have hgrows := storeEach_grows p.draft.slots 0 ids _ _ _ hstore
  have hwithin₂ := (callStored_grows _ _ _ _ _ _ hrun).within hwithin
  -- the slot was free before, so what there was is left alone
  have hstored : x.Follows p [] stored := {
    leads := by
      have hleads := storeEach_leads (p := ⟨{ p.draft with slots := p.draft.slots + 1 }, p.machine,
        p.host⟩) (h.imp fun _ _ hid => ⟨hid.numbered, hid.eq⟩) hstore hwithin₂
      exact hleads
    next := hgrows.next
    slots := Nat.le_trans (Nat.le_succ _) hgrows.slots
    registers := fun _ _ => by rw [Machine.storeAll_registers]
    stack := fun slot hslot => Machine.storeAll_stack_ne (Nat.ne_of_lt hslot) }
  exact ⟨m, hstored.trans hfollows, hholds⟩

end Calls

end Process

end CircuitExpr
