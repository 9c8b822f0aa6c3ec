import Mathlib
import CircuitExpr.Program.Run

/-!
# Executions of programs

`Program.runFrom` counts its steps down from the length of the code. Here an execution is spelled
out: `Program.Passes p setting m trace last` lists the moments from `m` on in which an instruction
is executed, until `last`.

## Main statements

* `Passes.trans` — executions can be put together
* `runOn_of_passes` — an execution that gets behind the code in few enough steps is the run
-/

namespace CircuitExpr

/-- Where an execution is: the next place, the stack and the state of the host. -/
structure Moment (D σ : Type) where
  place : Nat
  stack : List D
  host : σ

namespace Program

variable {K D σ : Type} [Literal K] [Scalar D K]

/-! ## Single steps -/

/-- The moment after an instruction. -/
def after (p : Program K D σ) (setting : Setting D) (i : Instruction D) (m : Moment D σ) :
    Moment D σ :=
  let ((place, stack), host) := (p.step setting i m.place m.stack).run m.host
  ⟨place, stack, host⟩

section Steps

variable (p : Program K D σ) (setting : Setting D) (place : Nat) (stack : List D) (host : σ)

@[simp] theorem after_const (value : D) :
    p.after setting (.const value) ⟨place, stack, host⟩ = ⟨place + 1, value :: stack, host⟩ := rfl

@[simp] theorem after_load (slot : Nat) :
    p.after setting (.load slot) ⟨place, stack, host⟩ =
      ⟨place + 1, (p.captures.sources[slot]?.map setting).getD Scalar.undefined :: stack, host⟩ :=
  rfl

@[simp] theorem after_neg :
    p.after setting .neg ⟨place, stack, host⟩ =
      ⟨place + 1, replaceTop (fun x => -x) stack, host⟩ := rfl

@[simp] theorem after_not :
    p.after setting .not ⟨place, stack, host⟩ =
      ⟨place + 1, replaceTop (fun x => Scalar.ofBool (!Scalar.isTrue x)) stack, host⟩ := rfl

@[simp] theorem after_apply (op : BinaryOp) :
    p.after setting (.apply op) ⟨place, stack, host⟩ =
      ⟨place + 1, applyTop p.tolerances op stack, host⟩ := rfl

@[simp] theorem after_call (slot argc : Nat) :
    p.after setting (.call slot argc) ⟨place, stack, host⟩ =
      ⟨place + 1, ((p.callTop slot argc stack).run host).1,
        ((p.callTop slot argc stack).run host).2⟩ := rfl

@[simp] theorem after_jumpIfFalse (target : Nat) :
    p.after setting (.jumpIfFalse target) ⟨place, stack, host⟩ =
      ⟨if Scalar.isTrue (pop Scalar.zero stack).1 then place + 1 else target,
        (pop Scalar.zero stack).2, host⟩ := rfl

@[simp] theorem after_jump (target : Nat) :
    p.after setting (.jump target) ⟨place, stack, host⟩ = ⟨target, stack, host⟩ := rfl

end Steps

/-- A call of a function that is captured. -/
theorem callTop_run {p : Program K D σ} {slot argc : Nat} {f : Native} {stack : List D}
    (h : p.captures.functions[slot]? = some f) (host : σ) :
    (p.callTop slot argc stack).run host =
      (((p.natives f (stack.take argc).reverse).run host).1 :: stack.drop argc,
        ((p.natives f (stack.take argc).reverse).run host).2) := by
  simp only [callTop, h]
  rfl

/-! ## Executions -/

/-- From `m` on an instruction is executed in each moment of `trace`, and then it is `last`. -/
inductive Passes (p : Program K D σ) (setting : Setting D) :
    Moment D σ → List (Moment D σ) → Moment D σ → Prop where
  | stay (m : Moment D σ) : Passes p setting m [] m
  | go {m last : Moment D σ} {trace : List (Moment D σ)} {i : Instruction D}
      (hcode : p.code[m.place]? = some i)
      (hrest : Passes p setting (p.after setting i m) trace last) :
      Passes p setting m (m :: trace) last

variable {p : Program K D σ} {setting : Setting D}

theorem Passes.trans {m n last : Moment D σ} {trace trace' : List (Moment D σ)}
    (h : Passes p setting m trace n) (h' : Passes p setting n trace' last) :
    Passes p setting m (trace ++ trace') last := by
  induction h with
  | stay m => exact h'
  | go hcode _ ih => exact .go hcode (ih h')

/-- From `m` on, execution gets to `last`. -/
def Reaches (p : Program K D σ) (setting : Setting D) (m last : Moment D σ) : Prop :=
  ∃ trace, Passes p setting m trace last

theorem Reaches.refl (m : Moment D σ) : Reaches p setting m m := ⟨[], .stay m⟩

theorem Reaches.step {m n : Moment D σ} {i : Instruction D} (hcode : p.code[m.place]? = some i)
    (hafter : p.after setting i m = n) : Reaches p setting m n := by
  subst hafter
  exact ⟨[m], .go hcode (.stay _)⟩

theorem Reaches.trans {m n last : Moment D σ} (h : Reaches p setting m n)
    (h' : Reaches p setting n last) : Reaches p setting m last := by
  obtain ⟨trace, htrace⟩ := h
  obtain ⟨trace', htrace'⟩ := h'
  exact ⟨trace ++ trace', htrace.trans htrace'⟩

theorem Passes.code_of_mem {m last k : Moment D σ} {trace : List (Moment D σ)}
    (h : Passes p setting m trace last) (hk : k ∈ trace) : ∃ i, p.code[k.place]? = some i := by
  induction h with
  | stay m => simp at hk
  | @go m last trace i hcode _ ih =>
    rcases List.mem_cons.mp hk with rfl | hk
    · exact ⟨i, hcode⟩
    · exact ih hk

/-- With enough steps left, the stack is what an execution to the end leaves. -/
theorem runFrom_of_passes {m last : Moment D σ} {trace : List (Moment D σ)}
    (h : Passes p setting m trace last) (hend : p.code[last.place]? = none) :
    ∀ {fuel}, trace.length ≤ fuel →
      (p.runFrom setting fuel m.place m.stack).run m.host = (last.stack, last.host) := by
  induction h with
  | stay m =>
    intro fuel _
    -- behind the code nothing happens, whatever steps are left
    cases fuel with
    | zero => rfl
    | succ fuel =>
      rw [runFrom]
      simp only [hend]
      rfl
  | @go m last trace i hcode hrest ih =>
    intro fuel hfuel
    obtain _ | fuel := fuel
    · simp at hfuel
    · have hrun := ih hend (Nat.le_of_succ_le_succ hfuel)
      rw [runFrom]
      simp only [hcode]
      exact hrun

/-- An execution from the first place to behind the code is what a run does, on any stack. -/
theorem runOn_of_passes {host : σ} {last : Moment D σ} {trace : List (Moment D σ)}
    (h : Passes p setting ⟨0, [], host⟩ trace last) (hend : p.code[last.place]? = none)
    (hlength : trace.length ≤ p.code.size) (leftover : List D) :
    (p.runOn setting leftover).run host = (pop Scalar.undefined last.stack, last.host) := by
  have hrun := runFrom_of_passes h hend hlength
  show ((p.runFrom setting p.code.size 0 []).run host).map (pop Scalar.undefined) id = _
  rw [hrun]
  rfl

end Program

end CircuitExpr
