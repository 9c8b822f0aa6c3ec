import Mathlib
import CircuitExpr.Evaluation.Evaluate

/-!
# Outcomes of evaluation

An evaluation that is started in some state of the host ends with a value or an error and in some
state of the host. `Run.outcome` is this pair, and the lemmas here say what it is for each way in
which computations are put together.
-/

namespace CircuitExpr

/-- A chain of steps succeeds exactly when every one of them does. -/
theorem bind_eq_ok {ε α β : Type} {x : Except ε α} {f : α → Except ε β} {b : β} :
    (x >>= f) = .ok b ↔ ∃ a, x = .ok a ∧ f a = .ok b := by
  cases x with
  | error e => exact ⟨nofun, fun ⟨_, h, _⟩ => nomatch h⟩
  | ok a => exact ⟨fun h => ⟨a, rfl, h⟩, fun ⟨_, h, hf⟩ => Except.ok.inj h ▸ hf⟩

/-- A step whose result is changed by a function succeeds exactly when the step does. -/
theorem map_eq_ok {ε α β : Type} {x : Except ε α} {f : α → β} {b : β} (h : x.map f = .ok b) :
    ∃ a, x = .ok a ∧ f a = b := by
  cases x with
  | error e => cases h
  | ok a => exact ⟨a, rfl, Except.ok.inj h⟩

/-- A chain of calls goes on with the result of the first, and with the host that it leaves. -/
theorem run_bind_of_run {σ α β : Type} {x : StateM σ α} {f : α → StateM σ β} {host host' : σ}
    {a : α} (h : x.run host = (a, host')) : (x >>= f).run host = (f a).run host' := by
  rw [StateT.run_bind, h]
  rfl

namespace Run

variable {σ α β : Type}

/-- What a computation ends with when the host is in the given state. -/
def outcome (x : Run σ α) (host : σ) : Except ExpressionError α × σ := x.run.run host

@[simp] theorem outcome_pure (a : α) (host : σ) :
    outcome (pure a : Run σ α) host = (.ok a, host) := rfl

@[simp] theorem outcome_ofExcept (x : Except ExpressionError α) (host : σ) :
    outcome (ofExcept x) host = (x, host) := rfl

@[simp] theorem outcome_ofCall (x : StateM σ α) (host : σ) :
    outcome (ofCall x) host = (.ok (x.run host).1, (x.run host).2) := rfl

theorem outcome_bind_ok {x : Run σ α} {f : α → Run σ β} {host host' : σ} {a : α}
    (h : outcome x host = (.ok a, host')) : outcome (x >>= f) host = outcome (f a) host' := by
  have hx : x host = (.ok a, host') := h
  show (x >>= f : Run σ β) host = (f a) host'
  simp only [bind, ExceptT.bind, ExceptT.mk, StateT.bind, ExceptT.bindCont, hx]

theorem outcome_bind_error {x : Run σ α} {f : α → Run σ β} {host host' : σ}
    {e : ExpressionError} (h : outcome x host = (.error e, host')) :
    outcome (x >>= f) host = (.error e, host') := by
  have hx : x host = (.error e, host') := h
  show (x >>= f : Run σ β) host = (.error e, host')
  simp only [bind, ExceptT.bind, ExceptT.mk, StateT.bind, ExceptT.bindCont, hx]
  rfl

/-- A chain of steps ends with a value exactly when every one of them does. -/
theorem outcome_bind_eq_ok {x : Run σ α} {f : α → Run σ β} {host host' : σ} {b : β} :
    outcome (x >>= f) host = (.ok b, host') ↔
      ∃ a host₁, outcome x host = (.ok a, host₁) ∧ outcome (f a) host₁ = (.ok b, host') := by
  rcases hx : outcome x host with ⟨result, host₁⟩
  cases result with
  | ok a =>
    rw [outcome_bind_ok hx]
    exact ⟨fun h => ⟨a, host₁, rfl, h⟩, by rintro ⟨_, _, ⟨⟩, h⟩; exact h⟩
  | error e =>
    rw [outcome_bind_error hx]
    exact ⟨nofun, by rintro ⟨_, _, ⟨⟩, _⟩⟩

end Run

/-! ## A small environment -/

/-- The variable of `Environment.metered`. -/
def Variable.sample : Variable := ⟨"x", .voltage, .value⟩

/-- One variable and one function `next`, which counts its calls and adds the count. -/
def Environment.metered : Environment Float Float Nat where
  bindings := (Bindings.empty .caseSensitive).bind .sample 0
  functions := FunctionTable.empty.register "next" ⟨.exactly 1, .host 0, none⟩
  tolerances := .default
  natives := Native.call fun _ arguments => do
    modify (· + 1)
    return arguments.headD 0 + Float.ofNat (← get)
  extension := none

theorem Environment.metered_resolve {name : String} {count : Nat} {d : FunctionDefinition Float}
    (h : Environment.metered.functions.resolve name count = .ok d) : d.native = .host 0 := by
  simp only [Environment.metered, FunctionTable.register, FunctionTable.resolve,
    FunctionTable.get?, FunctionTable.empty, FunctionTable.put, List.lookup] at h
  split at h
  · exact nomatch h
  · next entry hentry =>
    split at h
    · cases h
      split at hentry
      · cases hentry
        rfl
      · exact nomatch hentry
    · exact nomatch h

theorem Environment.metered_call (arguments : List Float) (count : Nat) :
    (Environment.metered.natives (.host 0) arguments).run count =
      (arguments.headD 0 + Float.ofNat (count + 1), count + 1) := rfl

/-- A conditional inside a call inside another conditional. -/
def Expr.sample : Expr Float :=
  .cond (.var .sample) (.call "next" [.cond (.const 1) (.const 2) (.const 3)]) (.const 4)

end CircuitExpr
