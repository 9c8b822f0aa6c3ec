import Mathlib
import CircuitExpr.Proofs.Program.Execution
import CircuitExpr.Proofs.Program.Layout

/-!
# Heights of the stack

Assembling counts the height of the stack along the code. Here the count is shown to be right:
`Assembly.SoundOn` is what can be said about single instructions and the places they lead to, and
it is enough for every execution to meet the heights that were counted.

## Main statements

* `Placed.soundOn` — the code of an expression is sound, whatever its place and depth
* `Level.step` — an instruction of sound code leads forward and keeps the height right
* `Level.passes`, `Level.exists_passes` — so an execution meets the heights counted and gets to
  the end
* `assembled_safe` — all this for what several expressions are assembled to
-/

namespace CircuitExpr

/-- The places that an instruction may lead to. -/
def Instruction.successors {D : Type} (i : Instruction D) (place : Nat) : List Nat :=
  match i with
  | .jumpIfFalse target => [place + 1, target]
  | .jump target => [target]
  | .const _ | .load _ | .neg | .not | .apply _ | .call _ _ => [place + 1]

/-- The target of a jump. -/
def Instruction.target? {D : Type} : Instruction D → Option Nat
  | .jumpIfFalse target | .jump target => some target
  | .const _ | .load _ | .neg | .not | .apply _ | .call _ _ => none

/-- The slot that an instruction uses, if any, is taken. -/
def Captures.Holds {D : Type} (c : Captures) : Instruction D → Prop
  | .load slot => slot < c.sources.length
  | .call slot _ => slot < c.functions.length
  | .const _ | .neg | .not | .apply _ | .jumpIfFalse _ | .jump _ => True

theorem Instruction.target_mem_successors {D : Type} {i : Instruction D} {place target : Nat}
    (h : i.target? = some target) : target ∈ i.successors place := by
  cases i <;> simp_all [target?, successors]

namespace Assembly

variable {D : Type} {a : Assembly D}

/-- The height counted in front of a place; behind the code it is the last one. -/
def heightAt (a : Assembly D) (place : Nat) : Nat := a.heights[place]?.getD a.depth

/-- What is right about an instruction. -/
structure SoundAt (a : Assembly D) (place : Nat) (i : Instruction D) : Prop where
  enough : i.takes ≤ a.heightAt place
  fits : a.heightAt place - i.takes + i.puts ≤ a.maxDepth
  holds : a.captures.Holds i
  forward : ∀ next ∈ i.successors place, place < next ∧ next ≤ a.code.size
  height : ∀ next ∈ i.successors place, a.heightAt next = a.heightAt place - i.takes + i.puts

/-- All instructions between two places are right. -/
def SoundOn (a : Assembly D) (start stop : Nat) : Prop :=
  ∀ place, start ≤ place → place < stop → ∃ i, a.code[place]? = some i ∧ a.SoundAt place i

/-- All instructions are right, and the count starts at zero. -/
structure Sound (a : Assembly D) : Prop where
  start : a.heightAt 0 = 0
  on : a.SoundOn 0 a.code.size

theorem SoundOn.append {start mid stop : Nat} (h : a.SoundOn start mid) (h' : a.SoundOn mid stop) :
    a.SoundOn start stop := by
  intro place hstart hstop
  by_cases hmid : place < mid
  · exact h place hstart hmid
  · exact h' place (Nat.le_of_not_lt hmid) hstop

theorem SoundOn.nil (a : Assembly D) (place : Nat) : a.SoundOn place place :=
  fun _ h h' => absurd h' (Nat.not_lt_of_le h)

theorem Has.heightAt {place height : Nat} {i : Instruction D} (h : a.Has place height i) :
    a.heightAt place = height := by
  rw [Assembly.heightAt, h.height_eq, Option.getD_some]

theorem heightAt_size (a : Assembly D) : a.heightAt a.code.size = a.depth := by
  simp [heightAt, ← a.heights_size]

theorem heights_eq_heightAt {place : Nat} (h : place < a.code.size) :
    a.heights[place]? = some (a.heightAt place) := by
  rw [← a.heights_size] at h
  simp [heightAt, h]

theorem Has.lt {place height : Nat} {i : Instruction D} (h : a.Has place height i) :
    place < a.code.size :=
  (Array.getElem?_eq_some_iff.mp h.code_eq).1

/-- An instruction is right if the places it leads to go on with the height it leaves. -/
theorem Has.soundOn {place height : Nat} {i : Instruction D} (h : a.Has place height i)
    (henough : i.takes ≤ height) (hholds : a.captures.Holds i)
    (hnext : ∀ next ∈ i.successors place, place < next ∧ next ≤ a.code.size ∧
      a.heightAt next = height - i.takes + i.puts) :
    a.SoundOn place (place + 1) := by
  intro k hk hk'
  obtain rfl : k = place := by omega
  refine ⟨i, h.code_eq, h.heightAt ▸ henough, h.heightAt ▸ h.fits, hholds, ?_, ?_⟩
  · exact fun next hmem => ⟨(hnext next hmem).1, (hnext next hmem).2.1⟩
  · rw [h.heightAt]
    exact fun next hmem => (hnext next hmem).2.2

/-- The same for an instruction that leads to the next place only. -/
theorem Has.soundOn_next {place height : Nat} {i : Instruction D} (h : a.Has place height i)
    (hi : i.successors place = [place + 1]) (henough : i.takes ≤ height)
    (hholds : a.captures.Holds i)
    (hheight : a.heightAt (place + 1) = height - i.takes + i.puts) :
    a.SoundOn place (place + 1) := by
  refine h.soundOn henough hholds ?_
  rw [hi]
  intro next hmem
  obtain rfl := List.mem_singleton.mp hmem
  exact ⟨Nat.lt_succ_self _, h.lt, hheight⟩

end Assembly

namespace Expr

variable {K D σ : Type} [Scalar D K] {env : Environment K D σ} {a : Assembly D}

/-! ## The code of an expression is sound -/

theorem PlacedEach.heightAt {es : List (Expr K)}
    (h : ∀ e ∈ es, ∀ {start depth stop}, Placed env a e start depth stop →
      a.heightAt start = depth) :
    ∀ {start depth stop}, PlacedEach env a es start depth stop →
      a.heightAt stop = depth + es.length → a.heightAt start = depth := by
  cases es with
  | nil =>
    rintro start depth stop rfl hstop
    exact hstop
  | cons e rest =>
    rintro start depth stop ⟨mid, hfirst, -⟩ _
    exact h e (by simp) hfirst

/-- The count in front of the code of an expression. -/
theorem Placed.heightAt {e : Expr K} :
    ∀ {start depth stop}, Placed env a e start depth stop → a.heightAt start = depth := by
  induction e using Expr.induction with
  | const value =>
    rintro start depth stop ⟨hhas, -⟩
    exact hhas.heightAt
  | var v =>
    rintro start depth stop ⟨_, _, -, -, hhas, -⟩
    exact hhas.heightAt
  | unary op operand ih =>
    intro start depth stop h
    cases op with
    | plus => exact ih h
    | minus | not =>
      obtain ⟨mid, hoperand, -⟩ := h
      exact ih hoperand
  | binary op left right ihl _ =>
    rintro start depth stop ⟨-, mid, last, hleft, -⟩
    exact ihl hleft
  | cond condition whenTrue whenFalse ihc _ _ =>
    rintro start depth stop ⟨branch, exit, hcondition, -⟩
    exact ihc hcondition
  | call name arguments ih =>
    rintro start depth stop ⟨d, slot, last, -, -, harguments, hhas, -⟩
    exact harguments.heightAt ih hhas.heightAt
  | ext name arguments => exact fun h => h.elim

theorem PlacedEach.soundOn {es : List (Expr K)}
    (h : ∀ e ∈ es, ∀ {start depth stop}, Placed env a e start depth stop →
      a.heightAt stop = depth + 1 → stop ≤ a.code.size → a.SoundOn start stop) :
    ∀ {start depth stop}, PlacedEach env a es start depth stop →
      a.heightAt stop = depth + es.length → stop ≤ a.code.size → a.SoundOn start stop := by
  induction es with
  | nil =>
    rintro start depth stop rfl _ _
    exact .nil a _
  | cons e rest ih =>
    rintro start depth stop ⟨mid, hfirst, hrest⟩ hstop hsize
    have hheight : a.heightAt stop = depth + 1 + rest.length := by
      rw [hstop, List.length_cons]
      omega
    have hle := hrest.le fun _ _ => Placed.lt
    have hmid := hrest.heightAt (fun _ _ => Placed.heightAt) hheight
    exact (h e (by simp) hfirst hmid (Nat.le_trans hle hsize)).append
      (ih (fun x hx => h x (by simp [hx])) hrest hheight hsize)

/--
The code of an expression is sound if the count goes on behind it with one number more.

Inside a conditional both values start from the height without the condition, and the jumps meet
behind it.
-/
theorem Placed.soundOn {e : Expr K} :
    ∀ {start depth stop}, Placed env a e start depth stop → a.heightAt stop = depth + 1 →
      stop ≤ a.code.size → a.SoundOn start stop := by
  induction e using Expr.induction with
  | const value =>
    rintro start depth stop ⟨hhas, rfl⟩ hstop _
    exact hhas.soundOn_next rfl (Nat.zero_le _) trivial hstop
  | var v =>
    rintro start depth stop ⟨source, slot, -, hslot, hhas, rfl⟩ hstop _
    exact hhas.soundOn_next rfl (Nat.zero_le _) (List.getElem?_eq_some_iff.mp hslot).1 hstop
  | unary op operand ih =>
    intro start depth stop h hstop hsize
    cases op with
    | plus => exact ih h hstop hsize
    | minus | not =>
      obtain ⟨mid, hoperand, hhas, rfl⟩ := h
      exact (ih hoperand hhas.heightAt (Nat.le_of_succ_le hsize)).append
        (hhas.soundOn_next rfl (Nat.le_add_left _ _) trivial hstop)
  | binary op left right ihl ihr =>
    rintro start depth stop ⟨-, mid, last, hleft, hright, hhas, rfl⟩ hstop hsize
    have hlt := Placed.lt hright
    have hmid := Placed.heightAt hright
    exact ((ihl hleft hmid (by omega)).append (ihr hright hhas.heightAt (by omega))).append
      (hhas.soundOn_next rfl (Nat.le_add_left _ _) trivial hstop)
  | cond condition whenTrue whenFalse ihc iht ihf =>
    rintro start depth stop ⟨branch, exit, hcondition, hbranch, htrue, hexit, hfalse⟩ hstop hsize
    have hlt := Placed.lt htrue
    have hlt' := Placed.lt hfalse
    -- the first jump takes the condition, so both values start from the height without it
    have hbranched : a.SoundOn branch (branch + 1) := by
      refine hbranch.soundOn (Nat.le_add_left _ _) trivial ?_
      simp only [Instruction.successors, List.mem_cons, List.not_mem_nil, or_false,
        forall_eq_or_imp, forall_eq]
      exact ⟨⟨by omega, by omega, Placed.heightAt htrue⟩,
        ⟨by omega, by omega, Placed.heightAt hfalse⟩⟩
    -- the second jump takes nothing and leads to where the other value ends
    have hexited : a.SoundOn exit (exit + 1) := by
      refine hexit.soundOn (Nat.zero_le _) trivial ?_
      simp only [Instruction.successors, List.mem_singleton, forall_eq]
      exact ⟨by omega, hsize, hstop⟩
    exact ((((ihc hcondition hbranch.heightAt (by omega)).append hbranched).append
      (iht htrue hexit.heightAt (by omega))).append hexited).append (ihf hfalse hstop hsize)
  | call name arguments ih =>
    rintro start depth stop ⟨d, slot, last, -, hslot, harguments, hhas, rfl⟩ hstop hsize
    refine (harguments.soundOn ih hhas.heightAt (Nat.le_of_succ_le hsize)).append
      (hhas.soundOn_next rfl (Nat.le_add_left _ _) (List.getElem?_eq_some_iff.mp hslot).1 ?_)
    rw [hstop]
    simp [Instruction.takes, Instruction.puts]
  | ext name arguments => exact fun h => h.elim

variable [Literal K]

/-- What accepted expressions are assembled to is sound. -/
theorem emitEach_sound {es : List (Expr K)} (h : emitEach env es .empty = .ok a) : a.Sound := by
  have he := emitEach_placed h
  have hstop : a.heightAt a.code.size = 0 + es.length := by
    rw [a.heightAt_size, he.depth]
    rfl
  exact ⟨he.placed.heightAt (fun _ _ => Placed.heightAt) hstop,
    he.placed.soundOn (fun _ _ => Placed.soundOn) hstop (Nat.le_refl _)⟩

end Expr

namespace Program

variable {K D σ : Type} [Literal K] [Scalar D K]

/-! ## What one instruction preserves -/

theorem applyTop_length {tolerances : Tolerances K} {op : BinaryOp} {stack : List D}
    (h : 2 ≤ stack.length) : (applyTop tolerances op stack).length = stack.length - 2 + 1 := by
  obtain ⟨right, left, rest, rfl⟩ : ∃ x y rest, stack = x :: y :: rest := by
    match stack, h with
    | x :: y :: rest, _ => exact ⟨x, y, rest, rfl⟩
  simp only [applyTop, pop]
  split <;> simp

theorem replaceTop_length (f : D → D) (stack : List D) :
    (replaceTop f stack).length = stack.length := by
  cases stack <;> rfl

theorem callTop_length (p : Program K D σ) (slot argc : Nat) (stack : List D) (host : σ) :
    ((p.callTop slot argc stack).run host).1.length = stack.length - argc + 1 := by
  unfold callTop
  split <;> exact congrArg (· + 1) List.length_drop

/-- An instruction that finds its operands changes the height by what it takes and puts. -/
theorem after_stack_length (p : Program K D σ) (setting : Setting D) (i : Instruction D)
    (m : Moment D σ) (h : i.takes ≤ m.stack.length) :
    (p.after setting i m).stack.length = m.stack.length - i.takes + i.puts := by
  obtain ⟨place, stack, host⟩ := m
  cases i with
  | const | load | jump => rfl
  | neg | not =>
    have : 1 ≤ stack.length := h
    simp only [after_neg, after_not, replaceTop_length, Instruction.takes, Instruction.puts]
    omega
  | apply op => exact applyTop_length h
  | call slot argc => exact callTop_length p slot argc stack host
  | jumpIfFalse target => cases stack <;> rfl

theorem after_place_mem (p : Program K D σ) (setting : Setting D) (i : Instruction D)
    (m : Moment D σ) : (p.after setting i m).place ∈ i.successors m.place := by
  obtain ⟨place, stack, host⟩ := m
  cases i with
  | const | load | neg | not | apply | call | jump => exact List.mem_singleton.mpr rfl
  | jumpIfFalse target =>
    simp only [after_jumpIfFalse, Instruction.successors]
    split <;> simp

/-- The height of the stack is the one that was counted. -/
structure Level (a : Assembly D) (m : Moment D σ) : Prop where
  place : m.place ≤ a.code.size
  height : m.stack.length = a.heightAt m.place
  fits : m.stack.length ≤ a.maxDepth

variable {a : Assembly D} (env : Environment K D σ) (setting : Setting D)

/-- An instruction of sound code leads forward and keeps the height right. -/
theorem Level.step {m : Moment D σ} {i : Instruction D} (hm : Level a m) (ha : a.Sound)
    (hi : a.code[m.place]? = some i) :
    m.place < ((ofAssembly env a).after setting i m).place ∧
      Level a ((ofAssembly env a).after setting i m) := by
  have hlt := (Array.getElem?_eq_some_iff.mp hi).1
  obtain ⟨j, hj, hsound⟩ := ha.on m.place (Nat.zero_le _) hlt
  obtain rfl : j = i := Option.some.inj (hj.symm.trans hi)
  have hmem := after_place_mem (ofAssembly env a) setting j m
  have hlength := after_stack_length (ofAssembly env a) setting j m
    (hm.height ▸ hsound.enough)
  obtain ⟨hforward, hle⟩ := hsound.forward _ hmem
  refine ⟨hforward, hle, ?_, ?_⟩
  · rw [hlength, hsound.height _ hmem, hm.height]
  · rw [hlength, hm.height]
    exact hsound.fits

/-! ## What a run preserves -/

/-- Sound code is passed through to its end. -/
theorem Level.exists_passes (ha : a.Sound) (m : Moment D σ) (hm : Level a m) :
    ∃ trace last, Passes (ofAssembly env a) setting m trace last ∧ last.place = a.code.size := by
  by_cases hlt : m.place < a.code.size
  · obtain ⟨i, hi, -⟩ := ha.on m.place (Nat.zero_le _) hlt
    obtain ⟨hforward, hnext⟩ := hm.step env setting ha hi
    obtain ⟨trace, last, hrest, hend⟩ := exists_passes ha _ hnext
    exact ⟨m :: trace, last, .go hi hrest, hend⟩
  · -- places behind the end are not reached, so this is the end
    exact ⟨[], m, .stay m, Nat.le_antisymm hm.place (Nat.le_of_not_lt hlt)⟩
termination_by a.code.size - m.place

variable {env setting}

/-- An execution of sound code meets the heights counted, and its places increase. -/
theorem Level.passes {m last : Moment D σ} {trace : List (Moment D σ)} (ha : a.Sound)
    (h : Passes (ofAssembly env a) setting m trace last) (hm : Level a m) :
    (∀ k ∈ trace ++ [last], Level a k ∧ m.place ≤ k.place) ∧
      ((trace ++ [last]).map Moment.place).Pairwise (· < ·) ∧
      m.place + trace.length ≤ last.place := by
  induction h with
  | stay m => simpa using hm
  | @go m last trace i hcode hrest ih =>
    obtain ⟨hlt, hnext⟩ := hm.step env setting ha hcode
    obtain ⟨hlevel, hpairwise, hlength⟩ := ih hnext
    refine ⟨?_, ?_, ?_⟩
    · intro k hk
      rcases List.mem_cons.mp hk with rfl | hk
      · exact ⟨hm, Nat.le_refl _⟩
      · exact ⟨(hlevel k hk).1, Nat.le_trans (Nat.le_of_lt hlt) (hlevel k hk).2⟩
    · -- the next place is greater, and no later one is less than that
      rw [List.cons_append, List.map_cons, List.pairwise_cons]
      refine ⟨?_, hpairwise⟩
      intro place hplace
      obtain ⟨k, hk, rfl⟩ := List.mem_map.mp hplace
      exact Nat.lt_of_lt_of_le hlt (hlevel k hk).2
    · rw [List.length_cons]
      omega

/--
**What accepted expressions are assembled to is safe to run, and its runs end.**

Every jump leads forward and not behind the code, no target is left open, no instruction takes
more numbers than are counted in front of it, and its slot is taken. In an execution every
instruction finds the stack as high as counted, hence its operands, and no place is met twice.
The execution ends behind the code, with one number for each expression, and it is what a run
does on any stack.
-/
theorem assembled_safe {es : List (Expr K)} (h : Expr.emitEach env es .empty = .ok a) :
    (∀ place i, a.code[place]? = some i →
      (∀ target, i.target? = some target → place < target ∧ target ≤ a.code.size ∧
        (a.code.size < Assembly.openTarget → target ≠ Assembly.openTarget)) ∧
      (∃ height, a.heights[place]? = some height ∧ i.takes ≤ height) ∧ a.captures.Holds i) ∧
    ∀ setting host,
      (∀ trace last, Passes (ofAssembly env a) setting ⟨0, [], host⟩ trace last →
        (∀ m ∈ trace, ∃ i, a.code[m.place]? = some i ∧
          a.heights[m.place]? = some m.stack.length ∧ i.takes ≤ m.stack.length) ∧
        (∀ m ∈ trace ++ [last], m.stack.length ≤ (ofAssembly env a).stackSize) ∧
        ((trace ++ [last]).map Moment.place).Pairwise (· < ·)) ∧
      ∃ trace last, Passes (ofAssembly env a) setting ⟨0, [], host⟩ trace last ∧
        last.place = a.code.size ∧ last.stack.length = es.length ∧
        ∀ leftover, ((ofAssembly env a).runOn setting leftover).run host =
          (pop Scalar.undefined last.stack, last.host) := by
  have ha := Expr.emitEach_sound h
  refine ⟨?_, ?_⟩
  · intro place i hi
    have hlt := (Array.getElem?_eq_some_iff.mp hi).1
    obtain ⟨j, hj, hsound⟩ := ha.on place (Nat.zero_le _) hlt
    obtain rfl : j = i := Option.some.inj (hj.symm.trans hi)
    refine ⟨?_, ⟨_, Assembly.heights_eq_heightAt hlt, hsound.enough⟩, hsound.holds⟩
    intro target htarget
    obtain ⟨hforward, hle⟩ := hsound.forward target (Instruction.target_mem_successors htarget)
    exact ⟨hforward, hle, fun hsize => Nat.ne_of_lt (Nat.lt_of_le_of_lt hle hsize)⟩
  · intro setting host
    have hstart : Level a (⟨0, [], host⟩ : Moment D σ) :=
      ⟨Nat.zero_le _, ha.start.symm, Nat.zero_le _⟩
    refine ⟨?_, ?_⟩
    · intro trace last hpasses
      obtain ⟨hlevel, hpairwise, -⟩ := hstart.passes ha hpasses
      refine ⟨?_, fun m hm => (hlevel m hm).1.fits, hpairwise⟩
      intro m hm
      obtain ⟨i, hi⟩ := hpasses.code_of_mem hm
      have hlt := (Array.getElem?_eq_some_iff.mp hi).1
      obtain ⟨j, hj, hsound⟩ := ha.on m.place (Nat.zero_le _) hlt
      have hm' := (hlevel m (List.mem_append_left _ hm)).1
      refine ⟨j, hj, ?_, ?_⟩
      · rw [hm'.height]
        exact Assembly.heights_eq_heightAt hlt
      · rw [hm'.height]
        exact hsound.enough
    · obtain ⟨trace, last, hpasses, hend⟩ := Level.exists_passes env setting ha _ hstart
      obtain ⟨hlevel, -, hlength⟩ := hstart.passes ha hpasses
      have hlast := (hlevel last (by simp)).1
      refine ⟨trace, last, hpasses, hend, ?_, ?_⟩
      · rw [hlast.height, hend, a.heightAt_size, (Expr.emitEach_placed h).depth]
        exact Nat.zero_add _
      · intro leftover
        refine runOn_of_passes hpasses ?_ ?_ leftover
        · rw [hend]
          exact Array.getElem?_eq_none (Nat.le_refl _)
        · rw [hend] at hlength
          exact Nat.le_trans (Nat.le_add_left _ _) hlength

/-- Two expressions on one assembly, the first with a conditional inside a call inside another. -/
theorem assembled_safe_nested :
    ∃ a, Expr.emitEach .metered [.sample, .const 5] .empty = .ok a ∧
      ∀ setting host, ∃ trace last,
        Passes (ofAssembly .metered a) setting ⟨0, [], host⟩ trace last ∧
          last.place = a.code.size ∧ last.stack.length = 2 ∧
          ∀ leftover, ((ofAssembly .metered a).runOn setting leftover).run host =
            (pop Scalar.undefined last.stack, last.host) := by
  obtain ⟨a, h⟩ : ∃ a, Expr.emitEach .metered [.sample, .const 5] .empty = .ok a := ⟨_, rfl⟩
  exact ⟨a, h, fun setting host => ((assembled_safe h).2 setting host).2⟩

end Program

end CircuitExpr
