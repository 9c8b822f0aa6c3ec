import Mathlib
import CircuitExpr.Native.Execute

/-!
# Executions of native code, block by block

`NativeCode.execute` yields a value alone. Here the blocks that are entered on the way are listed
along with it. A `Process` is code together with what it is executed on, and a `Spot` is where its
execution stands: in front of some lines of a block, with a machine and a state of the host.
`Process.Leads p path q` says that execution gets from `p` to `q` through the blocks of `path`,
however many blocks may be executed in all.

## Main statements

* `execute_eq_trace` — the list of blocks is no part of what is executed
* `Leads.trans`, `leads_compute`, `leads_jump`, … — single lines, and one after another
* `trace_of_leads` — an execution to a return, in few enough blocks
-/

namespace CircuitExpr

namespace NativeCode

variable {K σ : Type} [RealFunctions K]

/-- Executes at most `fuel` blocks and lists those that are entered. -/
def traceFrom (natives : Native → List K → StateM σ K) (c : NativeCode K) (inputs : List K) :
    Nat → BlockId → Machine K → StateM σ (K × List BlockId)
  | 0, _, _ => return (Literal.undefined, [])
  | fuel + 1, block, m => do
    match c.blocks[block]? with
    | none => return (Literal.undefined, [])
    | some lines =>
      let (exit, m) ← executeBlock natives c.captures inputs lines m
      match exit with
      | .jump next =>
        let (value, path) ← traceFrom natives c inputs fuel next m
        return (value, block :: path)
      | .ret value => return (value, [block])

/-- The value that the code returns, and the blocks entered from the first one on. -/
def trace (natives : Native → List K → StateM σ K) (c : NativeCode K) (setting : Setting K) :
    StateM σ (K × List BlockId) :=
  traceFrom natives c (c.captures.sources.map setting) c.blocks.size 0 .initial

theorem executeFrom_eq_trace (natives : Native → List K → StateM σ K) (c : NativeCode K)
    (inputs : List K) (fuel : Nat) (block : BlockId) (m : Machine K) :
    executeFrom natives c inputs fuel block m =
      (traceFrom natives c inputs fuel block m >>= fun r => pure r.1) := by
  induction fuel generalizing block m with
  | zero => rfl
  | succ fuel ih =>
    rw [executeFrom, traceFrom]
    cases c.blocks[block]? with
    | none => rfl
    | some lines =>
      simp only [bind_assoc]
      refine bind_congr fun r => ?_
      cases r.1 with
      | jump next => simp only [ih, bind_assoc, pure_bind]
      | ret value => rfl

omit [RealFunctions K] in
/-- Inputs that are as many as the sources are all written over. -/
theorem refill_eq_map (setting : Setting K) {inputs : List K} {sources : List SourceId}
    (h : inputs.length = sources.length) : refill setting inputs sources = sources.map setting := by
  induction inputs generalizing sources with
  | nil =>
    obtain rfl := List.length_eq_zero_iff.mp h.symm
    rfl
  | cons input inputs ih =>
    cases sources with
    | nil => exact nomatch h
    | cons source sources =>
      rw [refill, List.map_cons, ih (Nat.succ.inj h)]

/-- **Nothing of the inputs of an earlier call is left.** -/
theorem executeOn_eq (natives : Native → List K → StateM σ K) (c : NativeCode K)
    (setting : Setting K) {inputs : List K} (h : inputs.length = c.captures.sources.length) :
    c.executeOn natives setting inputs =
      (executeFrom natives c (c.captures.sources.map setting) c.blocks.size 0 .initial >>=
        fun x => pure (x, c.captures.sources.map setting)) := by
  rw [executeOn, refill_eq_map setting h]

theorem execute_eq (natives : Native → List K → StateM σ K) (c : NativeCode K)
    (setting : Setting K) :
    c.execute natives setting =
      executeFrom natives c (c.captures.sources.map setting) c.blocks.size 0 .initial := by
  have hblank : c.blank.length = c.captures.sources.length := List.length_replicate ..
  rw [execute, executeOn_eq natives c setting hblank, bind_assoc]
  simp only [pure_bind, bind_pure]

/-- The blocks are listed beside the execution and change nothing about it. -/
theorem execute_eq_trace (natives : Native → List K → StateM σ K) (c : NativeCode K)
    (setting : Setting K) :
    c.execute natives setting = (c.trace natives setting >>= fun r => pure r.1) := by
  rw [execute_eq]
  exact executeFrom_eq_trace ..

end NativeCode

/-- Code together with what it is executed on. -/
structure Process (K σ : Type) where
  natives : Native → List K → StateM σ K
  code : NativeCode K
  inputs : List K

/-- Where an execution stands: in front of lines of a block. -/
structure Spot (K σ : Type) where
  lines : List (Line K)
  machine : Machine K
  host : σ

namespace Process

variable {K σ : Type} [RealFunctions K] {x : Process K σ}

open NativeCode

/-- Blocks that are entered before those of an outcome. -/
def entering (path : List BlockId) (r : (K × List BlockId) × σ) : (K × List BlockId) × σ :=
  ((r.1.1, path ++ r.1.2), r.2)

omit [RealFunctions K] in
theorem entering_append (path path' : List BlockId) (r : (K × List BlockId) × σ) :
    entering (path ++ path') r = entering path (entering path' r) := by
  simp only [entering, List.append_assoc]

/-- Executes the rest of a block and then at most `fuel` blocks. -/
def finish (x : Process K σ) (fuel : Nat) (p : Spot K σ) : (K × List BlockId) × σ :=
  match (executeBlock x.natives x.code.captures x.inputs p.lines p.machine).run p.host with
  | ((.jump next, m), host) => (traceFrom x.natives x.code x.inputs fuel next m).run host
  | ((.ret value, _), host) => ((value, []), host)

theorem traceFrom_succ {block : BlockId} {lines : List (Line K)}
    (h : x.code.blocks[block]? = some lines) (fuel : Nat) (m : Machine K) (host : σ) :
    (traceFrom x.natives x.code x.inputs (fuel + 1) block m).run host =
      entering [block] (x.finish fuel ⟨lines, m, host⟩) := by
  rw [traceFrom]
  simp only [h]
  unfold finish
  show StateT.run (executeBlock _ _ _ lines m >>= _) host = _
  rw [StateT.run_bind]
  rcases StateT.run (executeBlock x.natives x.code.captures x.inputs lines m) host
    with ⟨⟨_ | _, m'⟩, host'⟩ <;> rfl

/-- From `p` on, execution gets to `q`; the blocks of `path` are entered on the way. -/
def Leads (x : Process K σ) (p : Spot K σ) (path : List BlockId) (q : Spot K σ) : Prop :=
  ∀ fuel, x.finish (fuel + path.length) p = entering path (x.finish fuel q)

theorem Leads.refl (p : Spot K σ) : x.Leads p [] p := fun _ => rfl

theorem Leads.trans {p q r : Spot K σ} {path path' : List BlockId} (h : x.Leads p path q)
    (h' : x.Leads q path' r) : x.Leads p (path ++ path') r := by
  intro fuel
  rw [entering_append, ← h' fuel, ← h, List.length_append, ← Nat.add_assoc, Nat.add_right_comm]

/-- Lines that do nothing but change the machine and the host. -/
theorem Leads.of_executeBlock {p q : Spot K σ}
    (h : (executeBlock x.natives x.code.captures x.inputs p.lines p.machine).run p.host =
      (executeBlock x.natives x.code.captures x.inputs q.lines q.machine).run q.host) :
    x.Leads p [] q := by
  intro fuel
  show x.finish fuel p = x.finish fuel q
  unfold finish
  rw [h]

/-! ## Single lines -/

section Lines

variable {id : ValueId} {i : NativeInstruction K} {rest : List (Line K)} {m : Machine K} {host : σ}

theorem leads_compute {value : Cell K} (h : compute x.inputs m i = some value) :
    x.Leads ⟨⟨id, i⟩ :: rest, m, host⟩ [] ⟨rest, m.assign id value, host⟩ := by
  refine .of_executeBlock ?_
  cases i with
  | stackStore | callFunction | branch | jump | ret => simp only [compute, reduceCtorEq] at h
  | _ => simp only [executeBlock, h]

theorem leads_store (value : ValueId) (slot index : Nat) :
    x.Leads ⟨⟨id, .stackStore value slot index⟩ :: rest, m, host⟩ []
      ⟨rest, m.store slot index (m.real value), host⟩ :=
  .of_executeBlock rfl

theorem leads_call {function address count : ValueId} {f : Native} {k slot n : Nat}
    (hget : x.code.captures.functions[k]? = some f) (hfunction : m.registers function = .word k)
    (haddress : m.registers address = .address slot) (hcount : m.registers count = .word n) :
    let result := (x.natives f (m.arguments slot n)).run host
    x.Leads ⟨⟨id, .callFunction function address count⟩ :: rest, m, host⟩ []
      ⟨rest, m.assign id (.real result.1), result.2⟩ := by
  refine .of_executeBlock ?_
  simp only [executeBlock, callFunction, hfunction, haddress, hcount, Cell.toWord, Cell.toSlot,
    hget]
  rfl

theorem leads_jump {block : BlockId} {lines : List (Line K)}
    (h : x.code.blocks[block]? = some lines) :
    x.Leads ⟨⟨id, .jump block⟩ :: rest, m, host⟩ [block] ⟨lines, m, host⟩ :=
  fun fuel => traceFrom_succ h fuel m host

theorem leads_branch {flag : ValueId} {whenTrue whenFalse block : BlockId}
    {lines : List (Line K)} (hblock : (if m.flag flag then whenTrue else whenFalse) = block)
    (h : x.code.blocks[block]? = some lines) :
    x.Leads ⟨⟨id, .branch flag whenTrue whenFalse⟩ :: rest, m, host⟩ [block]
      ⟨lines, m, host⟩ := by
  subst hblock
  exact fun fuel => traceFrom_succ h fuel m host

theorem finish_ret (value : ValueId) (fuel : Nat) :
    x.finish fuel ⟨⟨id, .ret value⟩ :: rest, m, host⟩ = ((m.real value, []), host) := rfl

end Lines

/-- Execution from the first block to a return is what is traced, if there are enough blocks. -/
theorem trace_of_leads {lines rest : List (Line K)} {m m' : Machine K} {host host' : σ}
    {path : List BlockId} {id value : ValueId} {block : BlockId} {fuel : Nat}
    (hblock : x.code.blocks[block]? = some lines)
    (h : x.Leads ⟨lines, m, host⟩ path ⟨⟨id, .ret value⟩ :: rest, m', host'⟩)
    (hfuel : path.length < fuel) :
    (traceFrom x.natives x.code x.inputs fuel block m).run host =
      ((m'.real value, block :: path), host') := by
  obtain ⟨more, rfl⟩ : ∃ more, fuel = more + path.length + 1 :=
    ⟨fuel - path.length - 1, by omega⟩
  rw [traceFrom_succ hblock, h more, finish_ret]
  simp only [entering, List.append_nil, List.singleton_append]

end Process

end CircuitExpr
