import Mathlib
import CircuitExpr.Proofs.Evaluation.Matching
import CircuitExpr.Proofs.Evaluation.Recording

/-!
# Decisions of an evaluation

On its way to a value an evaluation decides which value of a conditional it goes on with, and
whether two values count as equal. Here these decisions are noted down in their order, whether or
not the evaluation ends with a value. Beside them stand the operands of divisions, remainders and
powers, whose results are not good for all operands.

Noting down changes nothing: it is the same evaluation, with a list beside the state of the host.

## Main statements

* `Decision`, `Expr.evaluateNoting` — the evaluation that notes down what it decides
* `Expr.evaluateNoting_matches` — it ends as the evaluation does
* `Expr.decisions` — all decisions of an evaluation
-/

namespace CircuitExpr

variable {K D σ : Type}

/-! ## Decisions -/

/-- Something that an evaluation decides, or comes across on its way. -/
inductive Decision (D : Type) where
  /-- Whether the condition of a conditional holds. -/
  | branch (holds : Bool)
  /-- Whether two values are equal within the tolerances. -/
  | equality (equal : Bool)
  /-- The operands of a division, a remainder or a power. -/
  | operands (op : BinaryOp) (x y : D)

/-- The same decision in another domain. -/
def Decision.map {E : Type} (f : D → E) : Decision D → Decision E
  | .branch holds => .branch holds
  | .equality equal => .equality equal
  | .operands op x y => .operands op (f x) (f y)

/-- What is noted down of an operator between two operands. -/
def BinaryOp.decisions [Literal K] [Scalar D K] (tolerances : Tolerances K) (op : BinaryOp)
    (x y : D) : List (Decision D) :=
  match op with
  | .eq | .ne => [.equality (Scalar.fuzzyEquals x y tolerances)]
  | .div | .mod | .pow => [.operands op x y]
  | _ => []

/-- Notes down what was decided. -/
def Run.note (decisions : List (Decision D)) : Run (σ × List (Decision D)) Unit :=
  ExceptT.mk fun (host, noted) => (.ok (), (host, noted ++ decisions))

@[simp] theorem Run.outcome_note (decisions noted : List (Decision D)) (host : σ) :
    (note decisions).outcome (host, noted) = (.ok (), (host, noted ++ decisions)) := rfl

@[simp] theorem Run.outcome_beside {τ α : Type} (x : Run σ α) (host : σ) (other : τ) :
    x.beside.outcome (host, other) = ((x.outcome host).1, ((x.outcome host).2, other)) := rfl

/-! ## Noting them down -/

namespace Expr

variable [Literal K] [Scalar D K]

mutual

/-- The value of an expression, its decisions being noted down beside the state of the host. -/
def evaluateNoting (env : Environment K D σ) (setting : Setting D) :
    Expr K → Run (σ × List (Decision D)) D
  | .const value => pure (Scalar.ofReal value)
  | .var v =>
    match env.bindings.get? v with
    | some source => pure (setting source)
    | none => Run.ofExcept (.error (.unboundVariable v.text))
  | .unary op operand => do return op.apply (← evaluateNoting env setting operand)
  | .binary op left right => do
    let x ← evaluateNoting env setting left
    let y ← evaluateNoting env setting right
    Run.note (op.decisions env.tolerances x y)
    Run.ofExcept (op.apply env.tolerances x y)
  | .cond condition whenTrue whenFalse => do
    let x ← evaluateNoting env setting condition
    Run.note [.branch (Scalar.isTrue x)]
    if Scalar.isTrue x then evaluateNoting env setting whenTrue
    else evaluateNoting env setting whenFalse
  | .call name arguments => do
    let d ← Run.ofExcept (env.functions.resolve name arguments.length)
    let values ← evaluateNotingEach env setting arguments
    (Run.ofCall (env.natives d.native values)).beside
  | .ext name arguments =>
    match env.extension with
    | none => Run.ofExcept (.error (.unrecognizedNode (Expr.ext name arguments).text))
    | some handler => do (handler name (← evaluateNotingEach env setting arguments)).beside

/-- The values of several expressions, from left to right. -/
def evaluateNotingEach (env : Environment K D σ) (setting : Setting D) :
    List (Expr K) → Run (σ × List (Decision D)) (List D)
  | [] => pure []
  | e :: rest => do
    let x ← evaluateNoting env setting e
    return x :: (← evaluateNotingEach env setting rest)

end

/-- All that an evaluation decides, from the given state of the host on. -/
def decisions (env : Environment K D σ) (setting : Setting D) (host : σ) (e : Expr K) :
    List (Decision D) :=
  ((evaluateNoting env setting e).outcome (host, [])).2.2

/-! ## It is the same evaluation -/

open Run

/-- The state beside the decisions is the one without them. -/
abbrev Unnoted (s : σ × List (Decision D)) (t : σ) : Prop := s.1 = t

omit [Literal K] [Scalar D K] in
theorem matches_note_bind {α : Type} {x : Run (σ × List (Decision D)) α} {y : Run σ α}
    (decisions : List (Decision D)) (h : Matches Eq Unnoted x y) :
    Matches Eq Unnoted (note decisions >>= fun _ => x) y := by
  rintro ⟨host, noted⟩ _ rfl
  rw [outcome_bind_ok (outcome_note decisions noted host)]
  exact h _ _ rfl

omit [Literal K] [Scalar D K] in
theorem beside_matches {α : Type} (x : Run σ α) :
    Matches Eq Unnoted (x.beside : Run (σ × List (Decision D)) α) x := by
  rintro ⟨host, noted⟩ _ rfl
  exact ⟨.refl (fun _ => rfl) _, rfl⟩

variable {env : Environment K D σ} {setting : Setting D}

theorem evaluateNotingEach_matches {es : List (Expr K)}
    (h : ∀ e ∈ es, Matches Eq Unnoted (evaluateNoting env setting e) (evaluate env setting e)) :
    Matches Eq Unnoted (evaluateNotingEach env setting es) (evaluateEach env setting es) := by
  induction es with
  | nil =>
    rw [evaluateNotingEach, evaluateEach]
    exact .pure []
  | cons e rest ih =>
    obtain ⟨he, hrest⟩ := List.forall_mem_cons.mp h
    rw [evaluateNotingEach, evaluateEach]
    exact he.bind fun x => (ih hrest).bind fun xs => .pure _

/-- **Noting down decisions changes nothing else.** -/
theorem evaluateNoting_matches (env : Environment K D σ) (setting : Setting D) (e : Expr K) :
    Matches Eq Unnoted (evaluateNoting env setting e) (evaluate env setting e) := by
  have hE : ∀ x : ExpressionError, x = x := fun _ => rfl
  induction e using Expr.induction with
  | const value =>
    rw [evaluateNoting, evaluate]
    exact .pure _
  | var v =>
    rw [evaluateNoting, evaluate]
    cases env.bindings.get? v with
    | some source => exact .pure _
    | none => exact .ofExcept (.error rfl)
  | unary op operand ih =>
    rw [evaluateNoting, evaluate]
    exact ih.bind fun x => .pure _
  | binary op left right ihl ihr =>
    rw [evaluateNoting, evaluate]
    exact ihl.bind fun x => ihr.bind fun y => matches_note_bind _ (.ofExcept (.refl hE _))
  | cond condition whenTrue whenFalse ihc iht ihf =>
    rw [evaluateNoting, evaluate]
    refine ihc.bind fun x => matches_note_bind _ ?_
    split
    · exact iht
    · exact ihf
  | call name arguments ih =>
    rw [evaluateNoting, evaluate]
    have hresolve : Matches Eq Unnoted
        (Run.ofExcept (env.functions.resolve name arguments.length) :
          Run (σ × List (Decision D)) _)
        (Run.ofExcept (env.functions.resolve name arguments.length)) := .ofExcept (.refl hE _)
    exact hresolve.bind fun d =>
      (evaluateNotingEach_matches ih).bind fun values => beside_matches _
  | ext name arguments ih =>
    rw [evaluateNoting, evaluate]
    cases env.extension with
    | none => exact .ofExcept (.error rfl)
    | some handler => exact (evaluateNotingEach_matches ih).bind fun values => beside_matches _

end Expr

end CircuitExpr
