import Mathlib
import CircuitExpr.Proofs.Behavior.Checks
import CircuitExpr.Proofs.Native.Computes

/-!
# Native code refines evaluation

What an expression is lowered to is executed beside its evaluation: the value and the host are the
same, the functions called are the same, and the blocks entered are those of the values that
evaluation chooses.

## Main statements

* `Expr.path` — the blocks that an evaluation asks for
* `lower_evaluated` — executing the code of an expression, wherever it stands
* `native_refines_evaluation` — compiled code, and the stack machine beside it
-/

namespace CircuitExpr

/-! ## The blocks of an evaluation -/

namespace Expr

open Run

variable {K σ : Type} [RealFunctions K]

/-- The block of the second value of a conditional whose flag is computed in a given block. -/
def secondBlock (whenTrue : Expr K) (block : BlockId) : BlockId :=
  block + 1 + 1 + 3 * whenTrue.conditionals

/-- The block in which the values of such a conditional meet. -/
def mergeBlock (whenTrue whenFalse : Expr K) (block : BlockId) : BlockId :=
  secondBlock whenTrue block + 1 + 3 * whenFalse.conditionals

mutual

/--
The blocks that an evaluation asks for behind the one in which the code of the expression begins:
for every conditional that is evaluated the block of the value that it chooses, what this value
asks for, and the block where the values meet.
-/
def path (env : Environment K K σ) (setting : Setting K) : Expr K → BlockId → σ → List BlockId
  | .const _, _, _ | .var _, _, _ => []
  | .unary _ operand, block, host => path env setting operand block host
  | .binary _ left right, block, host =>
    path env setting left block host ++
      path env setting right (block + 3 * left.conditionals)
        ((left.evaluate env setting).outcome host).2
  | .cond condition whenTrue whenFalse, block, host =>
    let last := block + 3 * condition.conditionals
    let second := secondBlock whenTrue last
    let merge := mergeBlock whenTrue whenFalse last
    path env setting condition block host ++
      match (condition.evaluate env setting).outcome host with
      | (.ok x, host) =>
        if Scalar.isTrue x then (last + 1) :: path env setting whenTrue (last + 1) host ++ [merge]
        else second :: path env setting whenFalse second host ++ [merge]
      | (.error _, _) => []
  | .call _ arguments, block, host | .ext _ arguments, block, host =>
    pathEach env setting arguments block host

def pathEach (env : Environment K K σ) (setting : Setting K) :
    List (Expr K) → BlockId → σ → List BlockId
  | [], _, _ => []
  | e :: rest, block, host =>
    path env setting e block host ++
      pathEach env setting rest (block + 3 * e.conditionals)
        ((e.evaluate env setting).outcome host).2

end

variable {env : Environment K K σ} {setting : Setting K}

/-- The blocks of a conditional behind its flag, which is computed in a given block. -/
def forkPath (env : Environment K K σ) (setting : Setting K) (whenTrue whenFalse : Expr K)
    (flag : Bool) (block : BlockId) (host : σ) : List BlockId :=
  (if flag then (block + 1) :: path env setting whenTrue (block + 1) host
    else secondBlock whenTrue block :: path env setting whenFalse (secondBlock whenTrue block) host) ++
    [mergeBlock whenTrue whenFalse block]

section Cond

variable {condition whenTrue whenFalse : Expr K} {block : BlockId} {host host' : σ}

theorem path_cond_of_ok {x : K} (hx : (condition.evaluate env setting).outcome host = (.ok x, host')) :
    path env setting (.cond condition whenTrue whenFalse) block host =
      path env setting condition block host ++
        forkPath env setting whenTrue whenFalse (Scalar.isTrue x)
          (block + 3 * condition.conditionals) host' := by
  rw [path, hx, forkPath]
  simp only
  split <;> rfl

theorem path_cond_of_error {e : ExpressionError}
    (hx : (condition.evaluate env setting).outcome host = (.error e, host')) :
    path env setting (.cond condition whenTrue whenFalse) block host =
      path env setting condition block host := by
  rw [path, hx]
  exact List.append_nil _

end Cond

theorem pathEach_length_le {es : List (Expr K)}
    (h : ∀ e ∈ es, ∀ block host, (path env setting e block host).length ≤ 3 * e.conditionals)
    (block : BlockId) (host : σ) :
    (pathEach env setting es block host).length ≤ 3 * conditionalsEach es := by
  induction es generalizing block host with
  | nil => simp [pathEach]
  | cons e rest ih =>
    have he := h e (by simp) block host
    have hrest := ih (fun e he => h e (by simp [he])) (block + 3 * e.conditionals)
      ((e.evaluate env setting).outcome host).2
    rw [pathEach, conditionalsEach, List.length_append]
    omega

/-- No more blocks are asked for than there are. -/
theorem path_length_le (e : Expr K) (block : BlockId) (host : σ) :
    (e.path env setting block host).length ≤ 3 * e.conditionals := by
  induction e using Expr.induction generalizing block host with
  | const | var => simp [path]
  | unary op operand ih =>
    rw [path, conditionals]
    exact ih block host
  | binary op left right ihl ihr =>
    rw [path, conditionals, List.length_append]
    have hl := ihl block host
    have hr := ihr (block + 3 * left.conditionals) ((left.evaluate env setting).outcome host).2
    omega
  | cond condition whenTrue whenFalse ihc iht ihf =>
    rw [conditionals]
    have hc := ihc block host
    rcases hx : (condition.evaluate env setting).outcome host with ⟨_ | x, host'⟩
    · rw [path_cond_of_error hx]
      omega
    · rw [path_cond_of_ok hx, forkPath, List.length_append, List.length_append,
        List.length_singleton]
      split
      · have ht := iht (block + 3 * condition.conditionals + 1) host'
        rw [List.length_cons]
        omega
      · have hf := ihf (secondBlock whenTrue (block + 3 * condition.conditionals)) host'
        rw [List.length_cons]
        omega
  | call name arguments ih | ext name arguments ih =>
    rw [path, conditionals]
    exact pathEach_length_le ih block host

end Expr

/-! ## Conditionals -/

namespace Process

open Lowering NativeCode

variable {K σ : Type} [RealFunctions K] {x : Process K σ}

/-- A branch leads to the beginning of one of two blocks. -/
theorem branch_leads {p : Point K σ} {flag : ValueId} {b : Bool} {first second : BlockId}
    {target : Draft K} (hflag : p.Holds flag (.flag b))
    (hwithin : (p.draft.close (.branch flag first second)).Within x.code)
    (htarget : target.Within x.code) (hcurrent : target.current = [])
    (hblock : target.block = if b then first else second) :
    x.Leads (p.spot x.code) [target.block] (Point.spot ⟨target, p.machine, p.host⟩ x.code) := by
  rw [Point.spot, hwithin.rest_close]
  refine leads_branch ?_ (htarget.block_eq hcurrent)
  rw [hflag.flag, hblock]

/-- The chosen value is put away, and execution goes to where the values meet. -/
theorem leave_leads {p : Point K σ} {id : ValueId} {u : K} {slot : Nat} {merge : BlockId}
    {d target : Draft K} (hid : p.Holds id (.real u))
    (hrun : (leave id slot merge).run p.draft = .ok ((), d)) (hwithin : d.Within x.code)
    (htarget : target.Within x.code) (hcurrent : target.current = [])
    (hblock : target.block = merge) :
    x.Leads (p.spot x.code) [merge]
      (Point.spot ⟨target, p.machine.store slot 0 u, p.host⟩ x.code) := by
  subst hblock
  cases hrun
  have hpush := (Draft.extends_close _ _).within hwithin
  have hstore : x.Leads (p.spot x.code) [] (Point.spot ⟨p.draft.push (.stackStore id slot 0),
      p.machine.store slot 0 u, p.host⟩ x.code) := by
    rw [Point.spot, hpush.rest_push, ← hid.real]
    exact leads_store id slot 0
  refine hstore.trans ?_
  rw [Point.spot, hwithin.rest_close]
  exact leads_jump (htarget.block_eq hcurrent)

omit [RealFunctions K] in
theorem leave_current {id : ValueId} {slot : Nat} {merge : BlockId} {d d' : Draft K}
    (hrun : (leave id slot merge).run d = .ok ((), d')) : d'.current = [] := by
  cases hrun
  rfl

end Process

/-! ## Executing the code of an expression -/

namespace Expr

open List (Forall₂)
open Lowering Run

variable {K σ : Type} [RealFunctions K] {env : Environment K K σ} {setting : Setting K}

/-- The code in an environment at a setting of its sources. -/
def process (env : Environment K K σ) (c : NativeCode K) (setting : Setting K) : Process K σ :=
  ⟨env.natives, c, c.captures.sources.map setting⟩

/-- Wherever the code of the expression stands, executing it does what evaluation does. -/
def Evaluated (env : Environment K K σ) (c : NativeCode K) (setting : Setting K) (e : Expr K) :
    Prop :=
  ∀ (p : Point K σ) id d, (e.lower env).run p.draft = .ok (id, d) → d.Within c →
    ∃ value host m, (e.evaluate env setting).outcome p.host = (.ok value, host) ∧
      (process env c setting).Follows p (e.path env setting p.draft.block p.host) ⟨d, m, host⟩ ∧
      Point.Holds ⟨d, m, host⟩ id (.real value)

variable {c : NativeCode K}

theorem Evaluated.each {es : List (Expr K)} (h : ∀ e ∈ es, e.Evaluated env c setting)
    (p : Point K σ) (ids : List ValueId) (d : Draft K)
    (hrun : (lowerEach env es).run p.draft = .ok (ids, d)) (hwithin : d.Within c) :
    ∃ values host m, (evaluateEach env setting es).outcome p.host = (.ok values, host) ∧
      (process env c setting).Follows p (pathEach env setting es p.draft.block p.host)
        ⟨d, m, host⟩ ∧
      Forall₂ (fun id u => Point.Holds ⟨d, m, host⟩ id (.real u)) ids values := by
  induction es generalizing p ids with
  | nil =>
    rw [lowerEach] at hrun
    cases hrun
    exact ⟨[], p.host, p.machine, by rw [evaluateEach, outcome_pure],
      by rw [pathEach]; exact .refl p, .nil⟩
  | cons e rest ih =>
    rw [lowerEach] at hrun
    obtain ⟨id, d₁, hfirst, hrun⟩ := run_bind_eq_ok.mp hrun
    obtain ⟨ids', d₂, hrest, hrun⟩ := run_bind_eq_ok.mp hrun
    cases hrun
    have hgrows := lowerEach_grows (fun e _ => lower_grows env e) _ _ _ hrest
    obtain ⟨u, host₁, m₁, hu, hfollows₁, hid⟩ := h e (by simp) p id d₁ hfirst
      (hgrows.within hwithin)
    obtain ⟨values, host₂, m₂, hvalues, hfollows₂, hids⟩ :=
      ih (fun e he => h e (by simp [he])) ⟨d₁, m₁, host₁⟩ ids' hrest
    refine ⟨u :: values, host₂, m₂, ?_, ?_, .cons (hfollows₂.holds hid) hids⟩
    · rw [evaluateEach, outcome_bind_ok hu, outcome_bind_ok hvalues, outcome_pure]
    · rw [pathEach, hu, ← (lower_grows env e _ _ _ hfirst).block]
      exact hfollows₁.trans hfollows₂

theorem Evaluated.const (value : K) : (Expr.const value).Evaluated env c setting := by
  intro p id d hrun hwithin
  rw [lower] at hrun
  obtain ⟨m, hfollows, hid⟩ :=
    Process.emit_computes (x := process env c setting) rfl id d hrun hwithin
  exact ⟨value, p.host, m, by rw [evaluate, outcome_pure]; rfl, by rw [path]; exact hfollows, hid⟩

theorem Evaluated.var (v : Variable) : (Expr.var v).Evaluated env c setting := by
  intro p id d hrun hwithin
  rw [lower] at hrun
  cases hget : env.bindings.get? v with
  | none =>
    rw [hget] at hrun
    cases hrun
  | some source =>
    rw [hget] at hrun
    obtain ⟨slot, d₁, hcapture, hload⟩ := run_bind_eq_ok.mp hrun
    cases hcapture
    have hwithin₁ := (emit_grows _ _ _ _ hload).within hwithin
    let captured : Draft K := { p.draft with captures := p.draft.captures.withSource source }
    have hslot : c.captures.sources[captured.captures.sourceSlot source]? = some source :=
      getElem?_of_prefix hwithin₁.sources (Captures.getElem?_sourceSlot (Captures.mem_adjoin _ _))
    have hread : NativeCode.compute (process env c setting).inputs p.machine
        (.load (captured.captures.sourceSlot source)) = some (.real (setting source)) := by
      rw [NativeCode.compute, process, List.getD_eq_getElem?_getD, List.getElem?_map, hslot]
      rfl
    obtain ⟨m, hfollows, hid⟩ := Process.emit_computes (x := process env c setting)
      (p := ⟨captured, p.machine, p.host⟩) hread id d hload hwithin
    refine ⟨setting source, p.host, m, ?_, ?_, hid⟩
    · simp only [evaluate, hget, outcome_pure]
    · rw [path]
      exact ⟨hfollows.leads, hfollows.next, hfollows.slots, hfollows.registers, hfollows.stack⟩

theorem Evaluated.unary (op : UnaryOp) {operand : Expr K}
    (h : operand.Evaluated env c setting) : (Expr.unary op operand).Evaluated env c setting := by
  intro p id d hrun hwithin
  rw [lower] at hrun
  obtain ⟨id₁, d₁, hoperand, hop⟩ := run_bind_eq_ok.mp hrun
  obtain ⟨u, host₁, m₁, hu, hfollows₁, hid₁⟩ :=
    h p id₁ d₁ hoperand ((unary_grows op id₁ _ _ _ hop).within hwithin)
  obtain ⟨m, hfollows, hid⟩ := Process.unary_computes (x := process env c setting) op hid₁ id d
    hop hwithin
  refine ⟨op.apply u, host₁, m, ?_, ?_, hid⟩
  · rw [evaluate, outcome_bind_ok hu, outcome_pure]
  · rw [path, ← List.append_nil (path env setting operand _ _)]
    exact hfollows₁.trans hfollows

theorem Evaluated.binary (hone : (1 : K) - 1 = 0) (hzero : (1 : K) - 0 = 1) (op : BinaryOp)
    {left right : Expr K} (hl : left.Evaluated env c setting)
    (hr : right.Evaluated env c setting) :
    (Expr.binary op left right).Evaluated env c setting := by
  intro p id d hrun hwithin
  rw [lower] at hrun
  obtain ⟨id₁, d₁, hleft, hrun⟩ := run_bind_eq_ok.mp hrun
  obtain ⟨id₂, d₂, hright, hop⟩ := run_bind_eq_ok.mp hrun
  have hwithin₂ := (binary_grows _ op id₁ id₂ _ _ _ hop).within hwithin
  obtain ⟨u, host₁, m₁, hu, hfollows₁, hid₁⟩ :=
    hl p id₁ d₁ hleft ((lower_grows env right _ _ _ hright).within hwithin₂)
  obtain ⟨v, host₂, m₂, hv, hfollows₂, hid₂⟩ := hr ⟨d₁, m₁, host₁⟩ id₂ d₂ hright hwithin₂
  obtain ⟨w, hw⟩ := BinaryOp.exists_apply_eq_ok Scalar.comparesOrdered_real (lacks_real op)
    env.tolerances u v
  obtain ⟨m, hfollows, hid⟩ := Process.binary_computes (x := process env c setting) hone hzero hw
    (hfollows₂.holds hid₁) hid₂ id d hop hwithin
  refine ⟨w, host₂, m, ?_, ?_, hid⟩
  · rw [evaluate, outcome_bind_ok hu, outcome_bind_ok hv, outcome_ofExcept, hw]
  · rw [path, hu, ← (lower_grows env left _ _ _ hleft).block,
      ← List.append_nil (path env setting right _ _)]
    exact hfollows₁.trans (hfollows₂.trans hfollows)

theorem Evaluated.call (name : String) {arguments : List (Expr K)}
    (h : ∀ e ∈ arguments, e.Evaluated env c setting) :
    (Expr.call name arguments).Evaluated env c setting := by
  intro p id d hrun hwithin
  rw [lower] at hrun
  cases hresolve : env.functions.resolve name arguments.length with
  | error x =>
    rw [hresolve] at hrun
    cases hrun
  | ok f =>
    rw [hresolve] at hrun
    obtain ⟨slot, d₁, hcapture, hrun⟩ := run_bind_eq_ok.mp hrun
    cases hcapture
    obtain ⟨ids, d₂, harguments, hcall⟩ := run_bind_eq_ok.mp hrun
    let captured : Draft K := { p.draft with captures := p.draft.captures.withFunction f.native }
    have hwithin₂ := (call_grows _ ids _ _ _ hcall).within hwithin
    have hwithin₁ := (lowerEach_grows (fun e _ => lower_grows env e) _ _ _ harguments).within
      hwithin₂
    have hslot : c.captures.functions[captured.captures.functionSlot f.native]? = some f.native :=
      getElem?_of_prefix hwithin₁.functions
        (Captures.getElem?_functionSlot (Captures.mem_adjoin _ _))
    obtain ⟨values, host₁, m₁, hvalues, hfollows₁, hids⟩ :=
      Evaluated.each h ⟨captured, p.machine, p.host⟩ ids d₂ harguments hwithin₂
    obtain ⟨m, hfollows, hid⟩ := Process.call_computes (x := process env c setting) hslot hids
      id d hcall hwithin
    refine ⟨_, _, m, ?_, ?_, hid⟩
    · rw [evaluate_call_of_ok hresolve, outcome_bind_ok hvalues, outcome_ofCall]
      rfl
    · rw [path, ← List.append_nil (pathEach env setting arguments _ _)]
      have hboth := hfollows₁.trans hfollows
      exact ⟨hboth.leads, hboth.next, hboth.slots, hboth.registers, hboth.stack⟩

/-- The code of a conditional behind its flag. -/
def fork (env : Environment K K σ) (whenTrue whenFalse : Expr K) (flag : ValueId) :
    Lowering K ValueId := do
  let slot ← takeSlot
  let first := (← get).block + 1
  let second := first + 1 + 3 * whenTrue.conditionals
  let merge := second + 1 + 3 * whenFalse.conditionals
  close (.branch flag first second)
  leave (← lower env whenTrue) slot merge
  leave (← lower env whenFalse) slot merge
  Lowering.emit (.stackLoad slot)

theorem fork_grows (env : Environment K K σ) (whenTrue whenFalse : Expr K) (flag : ValueId) :
    Grows (fork env whenTrue whenFalse flag)
      (1 + (3 * whenTrue.conditionals + (1 + (3 * whenFalse.conditionals + 1)))) :=
  takeSlot_grows.then fun slot => Grows.get.then fun _ => (close_grows _).bind fun _ =>
    (lower_grows env whenTrue).bind fun y => (leave_grows y slot _).bind fun _ =>
      (lower_grows env whenFalse).bind fun z => (leave_grows z slot _).bind fun _ => emit_grows _

/-- The parts of the code of a conditional behind its flag. -/
theorem fork_eq_ok {whenTrue whenFalse : Expr K} {flag id : ValueId} {d d' : Draft K}
    (hrun : (fork env whenTrue whenFalse flag).run d = .ok (id, d')) :
    ∃ id₂ d₂ d₃ id₄ d₄ d₅,
      (lower env whenTrue).run
        (d.taking.close (.branch flag (d.block + 1) (secondBlock whenTrue d.block))) =
          .ok (id₂, d₂) ∧
      (leave id₂ d.slots (mergeBlock whenTrue whenFalse d.block)).run d₂ = .ok ((), d₃) ∧
      (lower env whenFalse).run d₃ = .ok (id₄, d₄) ∧
      (leave id₄ d.slots (mergeBlock whenTrue whenFalse d.block)).run d₄ = .ok ((), d₅) ∧
      (Lowering.emit (.stackLoad d.slots)).run d₅ = .ok (id, d') := by
  obtain ⟨_, _, htake, hrun⟩ := run_bind_eq_ok.mp hrun
  cases htake
  obtain ⟨_, _, hget, hrun⟩ := run_bind_eq_ok.mp hrun
  cases hget
  obtain ⟨_, _, hclose, hrun⟩ := run_bind_eq_ok.mp hrun
  cases hclose
  obtain ⟨id₂, d₂, htrue, hrun⟩ := run_bind_eq_ok.mp hrun
  obtain ⟨_, d₃, hleave, hrun⟩ := run_bind_eq_ok.mp hrun
  obtain ⟨id₄, d₄, hfalse, hrun⟩ := run_bind_eq_ok.mp hrun
  obtain ⟨_, d₅, hleave', hload⟩ := run_bind_eq_ok.mp hrun
  exact ⟨id₂, d₂, d₃, id₄, d₄, d₅, htrue, hleave, hfalse, hleave', hload⟩

/--
One value of a conditional behind the branch at `p`: its block is entered, it is computed and put
away in the slot that was free at `p`, and execution goes to where the values meet.
-/
theorem Evaluated.arm {e : Expr K} (h : e.Evaluated env c setting) {p : Point K σ} {id : ValueId}
    {start d d' target : Draft K} {n : Nat}
    (hbranch : (process env c setting).Leads (p.spot c) [start.block]
      (Point.spot ⟨start, p.machine, p.host⟩ c))
    (hnext : p.draft.next ≤ start.next) (hslots : p.draft.slots < start.slots)
    (hrun : (e.lower env).run start = .ok (id, d))
    (hleave : (leave id p.draft.slots target.block).run d = .ok ((), d'))
    (hend : d'.Extends n target) (hwithin : target.Within c) (hcurrent : target.current = []) :
    ∃ u host m, (e.evaluate env setting).outcome p.host = (.ok u, host) ∧
      (process env c setting).Follows p
        (start.block :: e.path env setting start.block p.host ++ [target.block])
        ⟨target, m, host⟩ ∧
      m.stack p.draft.slots 0 = u := by
  have hgrows := leave_grows _ _ _ _ _ _ hleave
  have hwithin' := hend.within hwithin
  obtain ⟨u, host, m, hu, hvalue, hid⟩ :=
    h ⟨start, p.machine, p.host⟩ id d hrun (hgrows.within hwithin')
  have hmeet := Process.leave_leads (x := process env c setting) hid hleave hwithin' hwithin
    hcurrent rfl
  refine ⟨u, host, m.store p.draft.slots 0 u, hu, ?_, if_pos ⟨rfl, rfl⟩⟩
  exact {
    leads := (hbranch.trans hvalue.leads).trans hmeet
    next := Nat.le_trans hnext (Nat.le_trans hvalue.next (Nat.le_trans hgrows.next hend.next))
    slots := Nat.le_trans (Nat.le_of_lt hslots)
      (Nat.le_trans hvalue.slots (Nat.le_trans hgrows.slots hend.slots))
    registers := fun id hid => hvalue.registers id (Nat.lt_of_lt_of_le hid hnext)
    stack := fun slot hslot i =>
      (if_neg fun hboth => Nat.ne_of_lt hslot hboth.1).trans
        (hvalue.stack slot (Nat.lt_trans hslot hslots) i) }

/-- Of the two values of a conditional only the one that the flag chooses is computed, and it is
put away for where the values meet. -/
theorem fork_stores {whenTrue whenFalse : Expr K} (ht : whenTrue.Evaluated env c setting)
    (hf : whenFalse.Evaluated env c setting) {p : Point K σ} {flag id₂ id₄ : ValueId} {b : Bool}
    {d₂ d₃ d₄ d₅ : Draft K} (hflag : p.Holds flag (.flag b))
    (htrue : (lower env whenTrue).run (p.draft.taking.close
      (.branch flag (p.draft.block + 1) (secondBlock whenTrue p.draft.block))) = .ok (id₂, d₂))
    (hleave : (leave id₂ p.draft.slots (mergeBlock whenTrue whenFalse p.draft.block)).run d₂ =
      .ok ((), d₃))
    (hfalse : (lower env whenFalse).run d₃ = .ok (id₄, d₄))
    (hleave' : (leave id₄ p.draft.slots (mergeBlock whenTrue whenFalse p.draft.block)).run d₄ =
      .ok ((), d₅))
    (hwithin : d₅.Within c) :
    ∃ u host m,
      ((if b then whenTrue else whenFalse).evaluate env setting).outcome p.host = (.ok u, host) ∧
      (process env c setting).Follows p
        (forkPath env setting whenTrue whenFalse b p.draft.block p.host) ⟨d₅, m, host⟩ ∧
      m.stack p.draft.slots 0 = u := by
  have hgrows₁ := p.draft.taking.extends_close
    (.branch flag (p.draft.block + 1) (secondBlock whenTrue p.draft.block))
  have hgrows₃ := (lower_grows env whenTrue _ _ _ htrue).trans (leave_grows _ _ _ _ _ _ hleave)
  have hgrows₅ := (lower_grows env whenFalse _ _ _ hfalse).trans (leave_grows _ _ _ _ _ _ hleave')
  have hwithin₃ := hgrows₅.within hwithin
  have hwithin₁ := hgrows₃.within hwithin₃
  -- the three blocks, of which the drafts at their beginnings have the numbers
  have hblock₃ : d₃.block = secondBlock whenTrue p.draft.block := by
    rw [hgrows₃.block, hgrows₁.block, ← Nat.add_assoc, Nat.add_right_comm]
    rfl
  have hblock₅ : d₅.block = mergeBlock whenTrue whenFalse p.draft.block := by
    rw [hgrows₅.block, hblock₃, ← Nat.add_assoc, Nat.add_right_comm]
    rfl
  have hcurrent₃ := Process.leave_current hleave
  have hcurrent₅ := Process.leave_current hleave'
  have htaking : Point.Holds ⟨p.draft.taking, p.machine, p.host⟩ flag (.flag b) :=
    ⟨hflag.numbered, hflag.eq⟩
  rw [forkPath, ← hblock₅]
  rw [← hblock₅] at hleave hleave'
  cases b with
  | true =>
    have hbranch := Process.branch_leads (x := process env c setting) htaking hwithin₁ hwithin₁
      rfl hgrows₁.block
    have harm := ht.arm (p := p) hbranch hgrows₁.next hgrows₁.slots htrue hleave hgrows₅ hwithin
      hcurrent₅
    rw [hgrows₁.block] at harm
    exact harm
  | false =>
    have hbranch := Process.branch_leads (x := process env c setting) htaking hwithin₁ hwithin₃
      hcurrent₃ hblock₃
    have harm := hf.arm (p := p) hbranch (Nat.le_trans hgrows₁.next hgrows₃.next)
      (Nat.lt_of_lt_of_le hgrows₁.slots hgrows₃.slots) hfalse hleave' (.refl _) hwithin hcurrent₅
    rwa [hblock₃] at harm

/-- Where the values of a conditional meet the chosen one is read back. -/
theorem fork_evaluated {whenTrue whenFalse : Expr K} (ht : whenTrue.Evaluated env c setting)
    (hf : whenFalse.Evaluated env c setting) {p : Point K σ} {flag id : ValueId} {b : Bool}
    {d : Draft K} (hflag : p.Holds flag (.flag b))
    (hrun : (fork env whenTrue whenFalse flag).run p.draft = .ok (id, d)) (hwithin : d.Within c) :
    ∃ value host m,
      ((if b then whenTrue else whenFalse).evaluate env setting).outcome p.host =
        (.ok value, host) ∧
      (process env c setting).Follows p
        (forkPath env setting whenTrue whenFalse b p.draft.block p.host) ⟨d, m, host⟩ ∧
      Point.Holds ⟨d, m, host⟩ id (.real value) := by
  obtain ⟨id₂, d₂, d₃, id₄, d₄, d₅, htrue, hleave, hfalse, hleave', hload⟩ := fork_eq_ok hrun
  obtain ⟨u, host, m, hu, hfollows, hstored⟩ := fork_stores ht hf hflag htrue hleave hfalse hleave'
    ((emit_grows _ _ _ _ hload).within hwithin)
  have hread : NativeCode.compute (process env c setting).inputs m (.stackLoad p.draft.slots) =
      some (.real u) := by
    rw [NativeCode.compute, hstored]
  obtain ⟨m', hfollows', hid⟩ := Process.emit_computes (p := ⟨d₅, m, host⟩) hread id d hload hwithin
  have hboth := hfollows.trans hfollows'
  rw [List.append_nil] at hboth
  exact ⟨u, host, m', hu, hboth, hid⟩

theorem Evaluated.cond {condition whenTrue whenFalse : Expr K}
    (hc : condition.Evaluated env c setting) (ht : whenTrue.Evaluated env c setting)
    (hf : whenFalse.Evaluated env c setting) :
    (Expr.cond condition whenTrue whenFalse).Evaluated env c setting := by
  intro p id d hrun hwithin
  rw [lower] at hrun
  obtain ⟨id₁, d₁, hcondition, hrun⟩ := run_bind_eq_ok.mp hrun
  obtain ⟨flag, d₂, htruth, hrun⟩ := run_bind_eq_ok.mp hrun
  have hfork : (fork env whenTrue whenFalse flag).run d₂ = .ok (id, d) := hrun
  have hwithin₂ := (fork_grows env whenTrue whenFalse flag _ _ _ hfork).within hwithin
  obtain ⟨x, host₁, m₁, hx, hfollows₁, hid₁⟩ :=
    hc p id₁ d₁ hcondition ((truth_grows id₁ _ _ _ htruth).within hwithin₂)
  obtain ⟨m₂, hfollows₂, hflag⟩ := Process.truth_computes (x := process env c setting) hid₁ flag d₂
    htruth hwithin₂
  obtain ⟨value, host, m, hvalue, hfollows, hid⟩ := fork_evaluated ht hf hflag hfork hwithin
  have hblock₂ : d₂.block = p.draft.block + 3 * condition.conditionals := by
    rw [(truth_grows id₁ _ _ _ htruth).block, (lower_grows env condition _ _ _ hcondition).block]
    rfl
  rw [hblock₂] at hfollows
  refine ⟨value, host, m, ?_, ?_, hid⟩
  · rw [evaluate, outcome_bind_ok hx]
    split at hvalue
    · next hholds => rwa [if_pos hholds]
    · next hholds => rwa [if_neg hholds]
  · rw [path_cond_of_ok hx]
    exact hfollows₁.trans (hfollows₂.trans hfollows)

/-- **Wherever the code of an expression stands, executing it does what evaluation does.** -/
theorem lower_evaluated (hone : (1 : K) - 1 = 0) (hzero : (1 : K) - 0 = 1) (e : Expr K) :
    e.Evaluated env c setting := by
  induction e using Expr.induction with
  | const value => exact .const value
  | var v => exact .var v
  | unary op operand ih => exact .unary op ih
  | binary op left right ihl ihr => exact .binary hone hzero op ihl ihr
  | cond condition whenTrue whenFalse ihc iht ihf => exact .cond ihc iht ihf
  | call name arguments ih => exact .call name ih
  | ext name arguments ih =>
    intro p id d hrun
    rw [lower] at hrun
    cases hrun

/-! ## Noting down calls -/

theorem lowerEach_recorded {es : List (Expr K)} (h : ∀ e ∈ es, lower env.recorded e = lower env e) :
    lowerEach env.recorded es = lowerEach env es := by
  induction es with
  | nil => rw [lowerEach, lowerEach]
  | cons e rest ih =>
    rw [lowerEach, lowerEach, h e (by simp), ih fun e he => h e (by simp [he])]

/-- Noting down calls is no matter of lowering. -/
theorem lower_recorded (e : Expr K) : lower env.recorded e = lower env e := by
  induction e using Expr.induction with
  | const | ext => rw [lower, lower]
  | var v =>
    rw [lower, lower]
    rfl
  | unary op operand ih => rw [lower, lower, ih]
  | binary op left right ihl ihr =>
    rw [lower, lower, ihl, ihr]
    rfl
  | cond condition whenTrue whenFalse ihc iht ihf => rw [lower, lower, ihc, iht, ihf]
  | call name arguments ih =>
    rw [lower, lower, lowerEach_recorded ih]
    rfl

end Expr

/-! ## Compiled code -/

namespace NativeCode

open Run

variable {K σ : Type} [RealFunctions K] {env : Environment K K σ} {e : Expr K} {c : NativeCode K}

/-- Finished code is a draft and the return of its value. -/
theorem lower_eq_ok (h : lower env e = .ok c) :
    ∃ id d, (e.lower env).run .empty = .ok (id, d) ∧ d.Within c ∧
      c.rest d = [⟨d.next, .ret id⟩] ∧ c.blocks.size = d.block + 1 := by
  obtain ⟨⟨id, d⟩, hlower, hfinish⟩ := bind_eq_ok.mp h
  cases hfinish
  have hblock : (d.close (.ret id)).closed[d.block]? =
      some (d.current.reverse ++ [⟨d.next, .ret id⟩]) := by
    show (d.closed.push _)[d.closed.size]? = _
    rw [Array.getElem?_push_size]
    simp [Draft.push]
  refine ⟨id, d, hlower, ⟨fun b hb => ?_, ⟨_, hblock⟩, List.prefix_rfl, List.prefix_rfl⟩,
    Draft.Within.rest_eq hblock, Array.size_push _⟩
  exact Array.getElem?_push_lt hb ▸ (Array.getElem?_eq_getElem hb).symm

/-- An execution of the code of an expression, block by block. -/
theorem trace_eq_evaluate (hone : (1 : K) - 1 = 0) (hzero : (1 : K) - 0 = 1)
    (hc : lower env e = .ok c) (setting : Setting K) (host : σ) :
    ∃ value host', (e.evaluate env setting).outcome host = (.ok value, host') ∧
      (c.trace env.natives setting).run host =
        ((value, 0 :: e.path env setting 0 host), host') := by
  obtain ⟨id, d, hlower, hwithin, hret, hsize⟩ := lower_eq_ok hc
  have hgrows := Expr.lower_grows env e _ _ _ hlower
  obtain ⟨value, host', m, hvalue, hfollows, hid⟩ :=
    Expr.lower_evaluated hone hzero e ⟨.empty, .initial, host⟩ id d hlower hwithin
  have hleads := hfollows.leads
  rw [Point.spot, Point.spot, Expr.process, hret] at hleads
  -- no block is entered twice, so there are enough of them
  have hfuel : (e.path env setting 0 host).length < c.blocks.size := by
    have hlength : (e.path env setting 0 host).length ≤ 3 * e.conditionals :=
      e.path_length_le 0 host
    have hblock := hgrows.block
    rw [hsize, hblock]
    exact Nat.lt_succ_of_le (Nat.le_trans hlength (Nat.le_add_left _ _))
  have htrace := Process.trace_of_leads ((hgrows.within hwithin).block_eq rfl) hleads hfuel
  rw [hid.real] at htrace
  exact ⟨value, host', hvalue, htrace⟩

theorem compile_eq_ok : compile env e = .ok c ↔
    e.validate env = .ok () ∧ lower env (e.optimize K env.tolerances) = .ok c := by
  rw [compile, bind_eq_ok]
  constructor
  · rintro ⟨_, h⟩
    exact h
  · intro h
    exact ⟨(), h⟩

/-- An execution of compiled code is an evaluation of the optimized expression. -/
theorem compiled_execute (hone : (1 : K) - 1 = 0) (hzero : (1 : K) - 0 = 1)
    (hc : compile env e = .ok c) (setting : Setting K) (host : σ) :
    ∃ value host',
      ((e.optimize K env.tolerances).evaluate env setting).outcome host = (.ok value, host') ∧
      (c.execute env.natives setting).run host = (value, host') := by
  obtain ⟨value, host', hvalue, htrace⟩ :=
    trace_eq_evaluate hone hzero (compile_eq_ok.mp hc).2 setting host
  refine ⟨value, host', hvalue, ?_⟩
  rw [execute_eq_trace]
  exact run_bind_of_run htrace

end NativeCode

/-- **Native code and the stack machine are the same evaluators**, and refuse the same trees. -/
theorem Evaluator.native_eq_program {K σ : Type} [RealFunctions K] (hone : (1 : K) - 1 = 0)
    (hzero : (1 : K) - 0 = 1) (env : Environment K K σ) (e : Expr K) :
    (native env e).map (·.value) = (program env e).map (·.value) := by
  have hverdict := (NativeCode.verdict_compile env e).trans (Program.verdict_compile env e).symm
  unfold native program
  cases hc : NativeCode.compile env e with
  | error x =>
    cases hp : Program.compile env e with
    | error y =>
      rw [hc, hp] at hverdict
      cases hverdict
      rfl
    | ok p =>
      rw [hc, hp] at hverdict
      exact nomatch hverdict
  | ok c =>
    cases hp : Program.compile env e with
    | error y =>
      rw [hc, hp] at hverdict
      exact nomatch hverdict
    | ok p =>
      refine congrArg Except.ok (funext fun setting => funext fun host => ?_)
      obtain ⟨value, host', hvalue, hexecute⟩ :=
        NativeCode.compiled_execute hone hzero hc setting host
      obtain ⟨value', host'', hvalue', hrun⟩ :=
        Program.compiled_run Scalar.comparesOrdered_real hp setting [] host
      -- both are an evaluation of the one optimized expression
      cases hvalue.symm.trans hvalue'
      refine hexecute.trans ?_
      show (value, host') = ((p.runOn setting []).run host).map (·.1) id
      rw [hrun]
      rfl

/--
**Native code refines evaluation.** An execution of compiled code has the value of the optimized
expression and leaves the host as its evaluation does. The functions called are the same, with the
same arguments and in the same order, and of a conditional only the blocks of the chosen value are
entered. So the stack machine and native code are the same evaluators.
-/
theorem native_refines_evaluation {K σ : Type} [RealFunctions K] (hone : (1 : K) - 1 = 0)
    (hzero : (1 : K) - 0 = 1) (env : Environment K K σ) (e : Expr K) :
    (∀ c, NativeCode.compile env e = .ok c → ∀ setting host, ∃ value host' calls,
      let n := e.optimize K env.tolerances
      (n.evaluate env setting).outcome host = (.ok value, host') ∧
      (c.execute env.natives setting).run host = (value, host') ∧
      (n.evaluate env.recorded setting).outcome (host, []) = (.ok value, (host', calls)) ∧
      (c.execute (recordCalls env.natives) setting).run (host, []) = (value, (host', calls)) ∧
      (c.trace env.natives setting).run host =
        ((value, 0 :: n.path env setting 0 host), host')) ∧
    (Evaluator.build env e .jit).map (·.value) = (Evaluator.build env e .program).map (·.value) := by
  refine ⟨fun c hc setting host => ?_, Evaluator.native_eq_program hone hzero env e⟩
  obtain ⟨-, hlower⟩ := NativeCode.compile_eq_ok.mp hc
  obtain ⟨value, host', hvalue, htrace⟩ :=
    NativeCode.trace_eq_evaluate hone hzero hlower setting host
  obtain ⟨value', host'', hvalue', hexecute⟩ :=
    NativeCode.compiled_execute hone hzero hc setting host
  cases hvalue.symm.trans hvalue'
  have hrecorded : NativeCode.lower env.recorded (e.optimize K env.tolerances) = .ok c := by
    rw [← hlower, NativeCode.lower, NativeCode.lower, Expr.lower_recorded]
  obtain ⟨value', ⟨host'', calls⟩, hevaluate, htrace'⟩ :=
    NativeCode.trace_eq_evaluate hone hzero hrecorded setting (host, [])
  -- noting the calls down changes neither the value nor the host
  cases hvalue.symm.trans (Expr.evaluate_of_recorded hevaluate)
  refine ⟨value, host', calls, hvalue, hexecute, hevaluate, ?_, htrace⟩
  rw [NativeCode.execute_eq_trace, StateT.run_bind]
  exact congrArg (fun r => (r.1.1, r.2)) htrace'

/-- Doubles, on a host that counts: a call and a conditional in a conditional. -/
theorem native_refines_evaluation_metered :
    (1 : Float) - 1 = 0 ∧ (1 : Float) - 0 = 1 ∧
      ∃ c, NativeCode.compile .metered .sample = .ok c ∧ ∀ setting host, ∃ value host' calls,
        ((Expr.sample.optimize Float Tolerances.default).evaluate
          Environment.metered.recorded setting).outcome (host, []) = (.ok value, (host', calls)) ∧
        (c.execute (recordCalls Environment.metered.natives) setting).run (host, []) =
          (value, (host', calls)) := by
  have hone : (1 : Float) - 1 = 0 := by decide +kernel
  have hzero : (1 : Float) - 0 = 1 := by decide +kernel
  obtain ⟨c, hc⟩ : ∃ c, NativeCode.compile .metered .sample = .ok c := ⟨_, rfl⟩
  refine ⟨hone, hzero, c, hc, fun setting host => ?_⟩
  obtain ⟨value, host', calls, -, -, hvalue, hrun, -⟩ :=
    (native_refines_evaluation hone hzero .metered .sample).1 c hc setting host
  exact ⟨value, host', calls, hvalue, hrun⟩

end CircuitExpr
