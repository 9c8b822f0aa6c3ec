import Mathlib
import CircuitExpr.Native.Listing
import CircuitExpr.Proofs.Native.Growth
import CircuitExpr.Proofs.Native.Kinds
import CircuitExpr.Proofs.Native.Refinement

/-!
# What native code consists of

Lowered code can be read off the expression before it is lowered: how many blocks it has, how many
jumps and branches, how often it reads a source or a stack slot or writes one, and how many
functions it calls. A block is left at its end and nowhere else.

The count goes along with the draft. It does not matter where in the expression a conditional
stands, in a condition, in an operand or in an argument: a step of lowering leaves the block at hand
open, whichever it is by then, and adds what belongs to the expression.

## Main statements

* `Inventory` — how many instructions there are of each kind; `Expr.inventory` is read off an
  expression
* `Draft.Gains`, `Lowering.Adds` — what a step adds, blocks being left at their ends alone
* `Expr.lower_adds` — lowering adds the inventory of the expression
* `NativeCode.compiled_inventory` — compiled code
-/

namespace CircuitExpr

/-! ## Inventories -/

/-- How many instructions there are of each kind. -/
abbrev Inventory := LineKind → Nat

/-- So many instructions of one kind, and none of another. -/
def Inventory.single (kind : LineKind) (count : Nat) : Inventory := Pi.single kind count

theorem Inventory.single_zero (kind : LineKind) : Inventory.single kind 0 = 0 := Pi.single_zero kind

theorem Inventory.single_add (kind : LineKind) (m n : Nat) :
    Inventory.single kind (m + n) = Inventory.single kind m + Inventory.single kind n :=
  @Pi.single_add _ (fun _ => Nat) _ _ kind m n

/-- One instruction of its kind, or none if it is ordinary. -/
def NativeInstruction.inventory {K : Type} (i : NativeInstruction K) : Inventory :=
  i.kind?.elim 0 fun kind => .single kind 1

/-- The instructions of each kind among some lines. -/
def Line.inventory {K : Type} (lines : List (Line K)) : Inventory :=
  fun kind => lines.countP fun line => line.instruction.kind? = some kind

/--
The instructions for so many conditionals and occurrences of variables, and for calls with these
numbers of arguments.
-/
def Inventory.of (conditionals loads : Nat) (arities : List Nat) : Inventory
  | .branch | .stackLoad => conditionals
  | .jump => 2 * conditionals
  | .ret => 0
  | .load => loads
  | .call => arities.length
  | .stackStore => 2 * conditionals + arities.sum

/-- The instructions of several parts are those of each of them. -/
theorem Inventory.of_add (t t' v v' : Nat) (as as' : List Nat) :
    Inventory.of (t + t') (v + v') (as ++ as') = Inventory.of t v as + Inventory.of t' v' as' := by
  funext kind
  cases kind <;> simp [Inventory.of] <;> omega

namespace Line

variable {K : Type}

theorem inventory_append (first second : List (Line K)) :
    inventory (first ++ second) = inventory first + inventory second := by
  funext kind
  exact List.countP_append

theorem inventory_singleton (id : ValueId) (i : NativeInstruction K) :
    inventory [⟨id, i⟩] = i.inventory := by
  funext kind
  rw [NativeInstruction.inventory, inventory, List.countP_singleton]
  cases i.kind? with
  | none => rfl
  | some kind' => simp [Inventory.single, Pi.single_apply, eq_comm]

end Line

theorem NativeInstruction.Ordinary.inventory_eq_zero {K : Type} {i : NativeInstruction K}
    (h : i.Ordinary) : i.inventory = 0 := by
  rw [NativeInstruction.inventory, h]
  rfl

namespace Expr

variable {K : Type}

mutual

/-- The numbers of arguments of all calls, each call before those in its arguments. -/
def arities : Expr K → List Nat
  | .const _ | .var _ => []
  | .unary _ operand => arities operand
  | .binary _ left right => arities left ++ arities right
  | .cond condition whenTrue whenFalse =>
    arities condition ++ arities whenTrue ++ arities whenFalse
  | .call _ arguments => arguments.length :: aritiesAll arguments
  | .ext _ arguments => aritiesAll arguments

def aritiesAll : List (Expr K) → List Nat
  | [] => []
  | e :: rest => arities e ++ aritiesAll rest

end

/-- The instructions that an expression is lowered to, the return of its value left out. -/
def inventory (e : Expr K) : Inventory :=
  .of e.conditionals e.occurrences.length e.arities

/-- The instructions that several expressions are lowered to. -/
def inventoryAll (es : List (Expr K)) : Inventory :=
  .of (conditionalsEach es) (occurrencesAll es).length (aritiesAll es)

theorem inventoryAll_cons (e : Expr K) (rest : List (Expr K)) :
    inventoryAll (e :: rest) = e.inventory + inventoryAll rest := by
  rw [inventoryAll, conditionalsEach, occurrencesAll, List.length_append, aritiesAll,
    Inventory.of_add]
  rfl

theorem inventory_binary (op : BinaryOp) (left right : Expr K) :
    (Expr.binary op left right).inventory = left.inventory + right.inventory := by
  rw [inventory, conditionals, occurrences, List.length_append, arities, Inventory.of_add]
  rfl

/-- A conditional on its own takes a branch, two jumps behind a store each, and a load. -/
theorem inventory_cond (condition whenTrue whenFalse : Expr K) :
    (Expr.cond condition whenTrue whenFalse).inventory =
      condition.inventory + (Inventory.single .branch 1 +
        (whenTrue.inventory + ((Inventory.single .stackStore 1 + Inventory.single .jump 1) +
          (whenFalse.inventory + ((Inventory.single .stackStore 1 + Inventory.single .jump 1) +
            Inventory.single .stackLoad 1))))) := by
  funext kind
  cases kind <;>
    simp [inventory, Inventory.of, Inventory.single, conditionals, occurrences, arities] <;> omega

/-- A call on its own takes a store for each argument, and one instruction that calls. -/
theorem inventory_call (name : String) (arguments : List (Expr K)) :
    (Expr.call name arguments).inventory = inventoryAll arguments +
      (Inventory.single .stackStore arguments.length + Inventory.single .call 1) := by
  funext kind
  cases kind <;>
    simp [inventory, inventoryAll, Inventory.of, Inventory.single, conditionals, occurrences,
      arities]
  -- of all kinds only the stores are counted twice, for conditionals and for calls
  omega

end Expr

/-! ## Drafts -/

/-- The last line leaves the block, and no other. -/
def Sealed {K : Type} (block : List (Line K)) : Prop :=
  ∃ body last, block = body ++ [last] ∧ last.instruction.isTerminator = true ∧
    ∀ line ∈ body, line.instruction.isTerminator = false

namespace Draft

variable {K : Type} {d d' d'' : Draft K} {gain gain' : Inventory}

/-- All lines of a draft. -/
def lines (d : Draft K) : List (Line K) := d.closed.toList.flatten ++ d.current.reverse

/-- The blocks that are complete are left at their ends alone, and the one at hand nowhere. -/
structure Tidy (d : Draft K) : Prop where
  closed : ∀ block ∈ d.closed, Sealed block
  current : ∀ line ∈ d.current, line.instruction.isTerminator = false

/-- The second draft has these instructions more than the first, and is as tidy. -/
structure Gains (d : Draft K) (gain : Inventory) (d' : Draft K) : Prop where
  tidy : d.Tidy → d'.Tidy
  inventory : Line.inventory d'.lines = Line.inventory d.lines + gain

theorem Gains.trans (h : d.Gains gain d') (h' : d'.Gains gain' d'') :
    d.Gains (gain + gain') d'' where
  tidy := h'.tidy ∘ h.tidy
  inventory := by rw [h'.inventory, h.inventory, add_assoc]

/-- What is captured and which slots are taken shows in no line. -/
theorem gains_of_eq (hclosed : d'.closed = d.closed) (hcurrent : d'.current = d.current) :
    d.Gains 0 d' where
  tidy h := ⟨hclosed ▸ h.closed, hcurrent ▸ h.current⟩
  inventory := by rw [lines, lines, hclosed, hcurrent, add_zero]

theorem lines_push (d : Draft K) (i : NativeInstruction K) :
    (d.push i).lines = d.lines ++ [⟨d.next, i⟩] := by
  simp [lines, push]

theorem lines_close (d : Draft K) (i : NativeInstruction K) :
    (d.close i).lines = d.lines ++ [⟨d.next, i⟩] := by
  simp [lines, close, push]

theorem gains_push (d : Draft K) (i : NativeInstruction K) (h : i.isTerminator = false) :
    d.Gains i.inventory (d.push i) where
  tidy ht := ⟨ht.closed, List.forall_mem_cons.mpr ⟨h, ht.current⟩⟩
  inventory := by rw [lines_push, Line.inventory_append, Line.inventory_singleton]

theorem gains_close (d : Draft K) (i : NativeInstruction K) (h : i.isTerminator = true) :
    d.Gains i.inventory (d.close i) where
  tidy ht := by
    refine ⟨fun block hblock => ?_, nofun⟩
    obtain hblock | rfl := Array.mem_push.mp hblock
    · exact ht.closed block hblock
    · refine ⟨d.current.reverse, ⟨d.next, i⟩, List.reverse_cons, h, fun line hline => ?_⟩
      exact ht.current line (List.mem_reverse.mp hline)
  inventory := by rw [lines_close, Line.inventory_append, Line.inventory_singleton]

end Draft

/-! ## Steps of lowering -/

namespace Lowering

variable {K α β : Type}

/-- Whenever the step succeeds it adds these instructions. -/
def Adds (m : Lowering K α) (gain : Inventory) : Prop :=
  ∀ d a d', m.run d = .ok (a, d') → d.Gains gain d'

/-- What the second step adds may depend on what the first one yields. -/
theorem Adds.bind_of_run {m : Lowering K α} {f : α → Lowering K β} {gain gain' : Inventory}
    (hm : Adds m gain) (hf : ∀ d a d', m.run d = .ok (a, d') → Adds (f a) gain') :
    Adds (m >>= f) (gain + gain') := by
  intro d b d'' h
  obtain ⟨a, d', hm', hf'⟩ := run_bind_eq_ok.mp h
  exact (hm d a d' hm').trans (hf d a d' hm' d' b d'' hf')

theorem Adds.bind {m : Lowering K α} {f : α → Lowering K β} {gain gain' : Inventory}
    (hm : Adds m gain) (hf : ∀ a, Adds (f a) gain') : Adds (m >>= f) (gain + gain') :=
  hm.bind_of_run fun _ a _ _ => hf a

theorem Adds.modifyGet {f : Draft K → α × Draft K} {gain : Inventory}
    (h : ∀ d : Draft K, d.Gains gain (f d).2) : Adds (modifyGet f : Lowering K α) gain := by
  intro d a d' hrun
  have hd : f d = (a, d') := Except.ok.inj hrun
  have hgains := h d
  rwa [hd] at hgains

/-- A step that looks at the draft or captures something adds nothing. -/
theorem Adds.modifyGet_zero {f : Draft K → α × Draft K}
    (hclosed : ∀ d, (f d).2.closed = d.closed) (hcurrent : ∀ d, (f d).2.current = d.current) :
    Adds (MonadState.modifyGet f : Lowering K α) 0 :=
  .modifyGet fun d => Draft.gains_of_eq (hclosed d) (hcurrent d)

theorem Adds.pure (a : α) : Adds (pure a : Lowering K α) 0 :=
  .modifyGet_zero (fun _ => rfl) fun _ => rfl

theorem Adds.get : Adds (get : Lowering K (Draft K)) 0 :=
  .modifyGet_zero (fun _ => rfl) fun _ => rfl

theorem takeSlot_adds : Adds (takeSlot : Lowering K Nat) 0 :=
  .modifyGet_zero (fun _ => rfl) fun _ => rfl

theorem captureSource_adds (source : SourceId) : Adds (captureSource source : Lowering K Nat) 0 :=
  .modifyGet_zero (fun _ => rfl) fun _ => rfl

theorem captureFunction_adds (f : Native) : Adds (captureFunction f : Lowering K Nat) 0 :=
  .modifyGet_zero (fun _ => rfl) fun _ => rfl

theorem Adds.fail (x : ExpressionError) (gain : Inventory) :
    Adds (Lowering.fail x : Lowering K α) gain :=
  fun _ _ _ h => nomatch h

theorem emit_adds {i : NativeInstruction K} (h : i.isTerminator = false) :
    Adds (emit i) i.inventory :=
  .modifyGet fun d => d.gains_push i h

theorem close_adds {i : NativeInstruction K} (h : i.isTerminator = true) :
    Adds (close i) i.inventory :=
  .modifyGet fun d => d.gains_close i h

/-- Ordinary instructions are not counted. -/
theorem Emits.adds {m : Lowering K α} (h : Emits NativeInstruction.Ordinary m) : Adds m 0 := by
  induction h with
  | pure a => exact .pure a
  | emit hi => exact hi.inventory_eq_zero ▸ emit_adds hi.isTerminator
  | bind _ _ ihm ihf => exact ihm.bind ihf

/-- In front of other steps, one that adds nothing. -/
theorem Adds.then {m : Lowering K α} {f : α → Lowering K β} {gain : Inventory} (hm : Adds m 0)
    (hf : ∀ a, Adds (f a) gain) : Adds (m >>= f) gain := by
  have h := hm.bind hf
  rwa [zero_add] at h

/-- Behind other steps, one that adds nothing. -/
theorem Adds.bind_zero {m : Lowering K α} {f : α → Lowering K β} {gain : Inventory}
    (hm : Adds m gain) (hf : ∀ a, Adds (f a) 0) : Adds (m >>= f) gain := by
  have h := hm.bind hf
  rwa [add_zero] at h

/-- Behind an ordinary instruction. -/
theorem Adds.ordinary {i : NativeInstruction K} {f : ValueId → Lowering K β} {gain : Inventory}
    (h : i.Ordinary) (hf : ∀ a, Adds (f a) gain) : Adds (emit i >>= f) gain :=
  (Emits.emit h).adds.then hf

theorem store_adds (x : ValueId) (slot index : Nat) :
    Adds (emit (.stackStore x slot index) : Lowering K ValueId) (Inventory.single .stackStore 1) :=
  emit_adds rfl

theorem storeEach_adds (slot index : Nat) (xs : List ValueId) :
    Adds (storeEach slot index xs : Lowering K Unit) (Inventory.single .stackStore xs.length) := by
  induction xs generalizing index with
  | nil =>
    rw [List.length_nil, Inventory.single_zero]
    exact .pure ()
  | cons x rest ih =>
    rw [List.length_cons, Nat.add_comm, Inventory.single_add]
    exact (store_adds x slot index).bind fun _ => ih (index + 1)

/-- A call adds one instruction that is counted, and a store for each argument. -/
theorem call_adds (function : Nat) (arguments : List ValueId) :
    Adds (call function arguments : Lowering K ValueId)
      (Inventory.single .stackStore arguments.length + Inventory.single .call 1) := by
  refine takeSlot_adds.then fun buffer => (storeEach_adds buffer 0 arguments).bind fun _ => ?_
  exact .ordinary rfl fun address => .ordinary rfl fun slot => .ordinary rfl fun count =>
    emit_adds rfl

/-- A chosen value is stored, and a jump leads to where the values meet. -/
theorem leave_adds (x : ValueId) (slot : Nat) (merge : BlockId) :
    Adds (leave x slot merge : Lowering K Unit)
      (Inventory.single .stackStore 1 + Inventory.single .jump 1) :=
  (store_adds x slot 0).bind fun _ => close_adds rfl

end Lowering

/-! ## Lowering -/

namespace Expr

open Lowering

variable {K σ : Type} [RealFunctions K] {env : Environment K K σ}

theorem lowerEach_adds {es : List (Expr K)} (h : ∀ e ∈ es, Adds (lower env e) e.inventory) :
    Adds (lowerEach env es) (inventoryAll es) := by
  induction es with
  | nil =>
    rw [lowerEach]
    have hnil : inventoryAll ([] : List (Expr K)) = 0 := by
      funext kind
      cases kind <;> rfl
    rw [hnil]
    exact .pure []
  | cons e rest ih =>
    rw [lowerEach, inventoryAll_cons]
    obtain ⟨he, hrest⟩ := List.forall_mem_cons.mp h
    exact he.bind fun x => (ih hrest).bind_zero fun xs => .pure _

/-- Each of several expressions yields the number of its value. -/
theorem lowerEach_length {es : List (Expr K)} {d d' : Draft K} {ids : List ValueId}
    (h : (lowerEach env es).run d = .ok (ids, d')) : ids.length = es.length := by
  induction es generalizing d d' ids with
  | nil =>
    rw [lowerEach] at h
    cases h
    rfl
  | cons e rest ih =>
    rw [lowerEach] at h
    obtain ⟨id, d₁, -, h⟩ := run_bind_eq_ok.mp h
    obtain ⟨ids', d₂, hrest, h⟩ := run_bind_eq_ok.mp h
    cases h
    rw [List.length_cons, List.length_cons, ih hrest]

/-- **Lowering adds the inventory of the expression**, wherever in the code it is lowered. -/
theorem lower_adds (env : Environment K K σ) (e : Expr K) : Adds (lower env e) e.inventory := by
  induction e using Expr.induction with
  | const value =>
    have hconst : (Expr.const value).inventory = 0 := by
      funext kind
      cases kind <;> rfl
    rw [lower, hconst]
    exact Emits.adds (.emit rfl)
  | var v =>
    have hvar : (Expr.var v : Expr K).inventory = Inventory.single .load 1 := by
      funext kind
      cases kind <;> rfl
    rw [lower, hvar]
    cases env.bindings.get? v with
    | none => exact .fail _ _
    | some source => exact (captureSource_adds source).then fun slot => emit_adds rfl
  | unary op operand ih =>
    rw [lower]
    exact ih.bind_zero fun x => (unary_emits op x).adds
  | binary op left right ihl ihr =>
    rw [lower, inventory_binary]
    exact ihl.bind fun x => ihr.bind_zero fun y => (binary_emits env.tolerances op x y).adds
  | cond condition whenTrue whenFalse ihc iht ihf =>
    rw [lower, inventory_cond]
    refine ihc.bind fun x => (truth_emits x).adds.then fun flag => takeSlot_adds.then fun slot => ?_
    refine Adds.get.then fun d => (close_adds rfl).bind fun _ => iht.bind fun y => ?_
    refine (leave_adds y slot _).bind fun _ => ihf.bind fun z => ?_
    exact (leave_adds z slot _).bind fun _ => emit_adds rfl
  | call name arguments ih =>
    rw [lower, inventory_call]
    cases env.functions.resolve name arguments.length with
    | error x => exact .fail x _
    | ok d =>
      refine (captureFunction_adds d.native).then fun function => ?_
      refine (lowerEach_adds ih).bind_of_run fun _ ids _ hids => ?_
      rw [← lowerEach_length hids]
      exact call_adds function ids
  | ext name arguments ih =>
    rw [lower]
    exact .fail _ _

end Expr

/-! ## Finished code -/

namespace NativeCode

/-- How many instructions of a kind the code has. -/
def count {K : Type} (c : NativeCode K) (kind : LineKind) : Nat := Line.inventory c.lines kind

/-- The code is made up as the expression is, and every block is left at its end alone. -/
structure ComposedAs {K : Type} (c : NativeCode K) (n : Expr K) : Prop where
  blocks : c.blocks.size = 1 + 3 * n.conditionals
  isSealed : ∀ block ∈ c.blocks, Sealed block
  /-- The code is left at the end of the last block. -/
  last : ∃ body id value, c.blocks.back? = some (body ++ [⟨id, .ret value⟩])
  branches : c.count .branch = n.conditionals
  jumps : c.count .jump = 2 * n.conditionals
  rets : c.count .ret = 1
  loads : c.count .load = n.occurrences.length
  stackLoads : c.count .stackLoad = n.conditionals
  /-- A store for each value of a conditional, and for each argument of a call. -/
  stackStores : c.count .stackStore = 2 * n.conditionals + n.arities.sum
  calls : c.count .call = n.arities.length

variable {K σ : Type} [RealFunctions K] {env : Environment K K σ} {e : Expr K} {c : NativeCode K}

omit [RealFunctions K] in
/-- Behind the last block there is nothing, so all lines are counted. -/
theorem count_of_gains {d : Draft K} {gain : Inventory} (h : Draft.empty.Gains gain d)
    (hcurrent : d.current = []) (kind : LineKind) :
    count ⟨d.closed, d.captures⟩ kind = gain kind := by
  have hkind := congrFun h.inventory kind
  rw [Draft.lines, hcurrent, List.reverse_nil, List.append_nil] at hkind
  exact hkind.trans (Nat.zero_add _)

/-- **Finished code is made up as the expression is that was lowered.** -/
theorem composedAs_of_lower (h : lower env e = .ok c) : c.ComposedAs e := by
  obtain ⟨⟨id, d⟩, hlower, hfinish⟩ := bind_eq_ok.mp h
  cases hfinish
  have hgains : Draft.empty.Gains (e.inventory + .single .ret 1) (d.close (.ret id)) :=
    (Expr.lower_adds env e _ _ _ hlower).trans (d.gains_close (.ret id) rfl)
  have hblock : d.block = 0 + 3 * e.conditionals := (Expr.lower_grows env e _ _ _ hlower).block
  have hcount := count_of_gains hgains rfl
  exact {
    blocks := by
      show (d.close (.ret id)).block = _
      rw [Draft.block_close, hblock, Nat.zero_add, Nat.add_comm]
    isSealed := (hgains.tidy ⟨nofun, nofun⟩).closed
    last := ⟨d.current.reverse, d.next, id, by simp [Draft.close, Draft.push]⟩
    branches := hcount .branch
    jumps := hcount .jump
    rets := hcount .ret
    loads := hcount .load
    stackLoads := hcount .stackLoad
    stackStores := hcount .stackStore
    calls := hcount .call }

/--
**Compiled code is made up as the optimized expression is.** For each conditional there are three
blocks behind the first one, a branch, two jumps, two stores and a load of the slot; each
occurrence of a variable is loaded and each call is made once. Every block is left by its last
instruction alone, and the last block by a return.
-/
theorem compiled_inventory (h : compile env e = .ok c) :
    c.ComposedAs (e.optimize K env.tolerances) :=
  composedAs_of_lower (compile_eq_ok.mp h).2

/-- A conditional in the argument of a call in a conditional. -/
def nested : Expr Float :=
  .cond (.var .sample) (.call "next" [.cond (.var .sample) (.const 2) (.const 3)]) (.const 4)

theorem compiled_inventory_nested :
    ∃ c, compile .metered nested = .ok c ∧ c.blocks.size = 7 ∧ c.count .branch = 2 ∧
      c.count .jump = 4 ∧ c.count .load = 2 ∧ c.count .call = 1 ∧ c.count .stackStore = 5 := by
  have hplain : nested.Plain := .cond (.var _)
    (.call _ (List.forall_mem_singleton.mpr (.cond (.var _) (.const _) (.const _)))) (.const _)
  have hchecked : nested.validate Environment.metered = .ok () := rfl
  obtain ⟨c, hc⟩ := exists_compile_of_valid ((Expr.validate_eq_ok_iff hplain).mp hchecked)
  have h := compiled_inventory hc
  exact ⟨c, hc, h.blocks, h.branches, h.jumps, h.loads, h.calls, h.stackStores⟩

end NativeCode

end CircuitExpr
