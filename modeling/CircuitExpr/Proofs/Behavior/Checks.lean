import Mathlib
import CircuitExpr.Proofs.Behavior.Backends

/-!
# All checks agree

An expression is looked at in four places: by the checks, by the assembler, by the lowering to
native code, and by the checks in front of a compiler, behind which the optimized expression is
assembled or lowered. Each of them goes through the tree in its own way. What they find is
compared by its `verdict`.

## Main statements

* `validate_alone` — what the checks find once the handler is taken away
* `validate_optimize` — an optimized expression passes the checks that the expression passes
* `checks_agree` — all checks, in both domains
-/

namespace CircuitExpr

namespace Expr

/-! ## Extension nodes -/

section Extensions

variable {K : Type}

mutual

/--
The nodes that only a host can evaluate, in the order in which evaluation comes to them: operands
from left to right, and a node before its arguments.
-/
def extensions : Expr K → List (Expr K)
  | .const _ | .var _ => []
  | .unary _ operand => extensions operand
  | .binary _ left right => extensions left ++ extensions right
  | .cond condition whenTrue whenFalse =>
    extensions condition ++ extensions whenTrue ++ extensions whenFalse
  | .call _ arguments => extensionsAll arguments
  | .ext name arguments => .ext name arguments :: extensionsAll arguments

def extensionsAll : List (Expr K) → List (Expr K)
  | [] => []
  | e :: rest => extensions e ++ extensionsAll rest

end

theorem extensionsAll_eq_nil_iff {es : List (Expr K)} :
    extensionsAll es = [] ↔ ∀ e ∈ es, e.extensions = [] := by
  induction es with
  | nil => simp [extensionsAll]
  | cons e rest ih => rw [extensionsAll, List.append_eq_nil_iff, ih, List.forall_mem_cons]

variable [Literal K]

/-- Nothing is wrong unless there is a node of this kind; the first one is named. -/
def refusal (nodes : List (Expr K)) : Except ExpressionError Unit :=
  match nodes with
  | [] => .ok ()
  | node :: _ => .error (.unrecognizedNode node.text)

theorem refusal_append (first second : List (Expr K)) :
    refusal (first ++ second) = (refusal first >>= fun _ => refusal second) := by
  cases first <;> rfl

omit [Literal K] in
/-- An expression without nodes of this kind asks nothing of the host. -/
theorem extensions_eq_nil_iff {e : Expr K} : e.extensions = [] ↔ e.Plain := by
  constructor
  · intro h
    induction e using Expr.induction with
    | const value => exact .const value
    | var v => exact .var v
    | unary op operand ih => exact .unary op (ih (by rwa [extensions] at h))
    | binary op left right ihl ihr =>
      rw [extensions, List.append_eq_nil_iff] at h
      exact .binary op (ihl h.1) (ihr h.2)
    | cond condition whenTrue whenFalse ihc iht ihf =>
      rw [extensions, List.append_eq_nil_iff, List.append_eq_nil_iff] at h
      exact .cond (ihc h.1.1) (iht h.1.2) (ihf h.2)
    | call name arguments ih =>
      rw [extensions, extensionsAll_eq_nil_iff] at h
      exact .call name fun e he => ih e he (h e he)
    | ext name arguments ih =>
      rw [extensions] at h
      exact absurd h (List.cons_ne_nil _ _)
  · intro h
    induction e using Expr.induction with
    | const | var => rw [extensions]
    | unary op operand ih =>
      cases h with
      | unary _ h => rw [extensions, ih h]
    | binary op left right ihl ihr =>
      cases h with
      | binary _ hl hr => rw [extensions, ihl hl, ihr hr, List.append_nil]
    | cond condition whenTrue whenFalse ihc iht ihf =>
      cases h with
      | cond hc ht hf => rw [extensions, ihc hc, iht ht, ihf hf, List.append_nil, List.append_nil]
    | call name arguments ih =>
      cases h with
      | call _ h => rw [extensions, extensionsAll_eq_nil_iff.mpr fun e he => ih e he (h e he)]
    | ext name arguments ih => cases h

end Extensions

/-! ## Behind the checks -/

section Checked

variable {K D σ : Type} [Literal K] [Scalar D K] {env : Environment K D σ}

theorem validateEach_alone {es : List (Expr K)}
    (h : ∀ e ∈ es, validate env.alone e = refusal e.extensions) :
    validateEach env.alone es = refusal (extensionsAll es) := by
  induction es with
  | nil => rw [validateEach, extensionsAll, refusal]
  | cons e rest ih =>
    rw [validateEach, extensionsAll, refusal_append, h e (by simp),
      ih fun e he => h e (by simp [he])]

/-- **Without its handler an environment refuses the first node of the host, and nothing else.** -/
theorem validate_alone {e : Expr K} (h : e.validate env = .ok ()) :
    e.validate env.alone = refusal e.extensions := by
  induction e using Expr.induction with
  | const value => rw [validate, extensions, refusal]
  | var v =>
    rw [extensions, refusal, ← h, validate, validate]
    rfl
  | unary op operand ih =>
    rw [validate] at h
    rw [validate, extensions, ih h]
  | binary op left right ihl ihr =>
    obtain ⟨hop, hl, hr⟩ := validate_binary_eq_ok.mp h
    rw [validate, extensions, if_neg (Bool.eq_false_iff.mp hop), ihl hl, ihr hr, refusal_append]
  | cond condition whenTrue whenFalse ihc iht ihf =>
    obtain ⟨hc, ht, hf⟩ := validate_cond_eq_ok.mp h
    rw [validate, extensions, ihc hc, iht ht, ihf hf, refusal_append, refusal_append, bind_assoc]
  | call name arguments ih =>
    obtain ⟨⟨d, hd⟩, harguments⟩ := validate_call_eq_ok.mp h
    rw [validate, extensions, ← validateEach_alone fun e he => ih e he (harguments e he)]
    show (env.functions.resolve name arguments.length >>= _) = _
    rw [hd]
    rfl
  | ext name arguments ih =>
    rw [validate, extensions, refusal]
    exact if_pos rfl

theorem validate_hereditary : Hereditary fun e : Expr K => e.validate env = .ok () where
  const value := by
    show validate env (.const value) = .ok ()
    rw [validate]
  unary {op e} := by
    show validate env (.unary op e) = .ok () ↔ validate env e = .ok ()
    rw [validate]
  binary h := by
    obtain ⟨hop, hl, hr⟩ := validate_binary_eq_ok.mp h
    exact ⟨hl, hr, fun ha hb => validate_binary_eq_ok.mpr ⟨hop, ha, hb⟩⟩
  cond := validate_cond_eq_ok
  call h := by
    obtain ⟨hname, harguments⟩ := validate_call_eq_ok.mp h
    exact ⟨harguments, fun hlength hes => validate_call_eq_ok.mpr ⟨by rwa [hlength], hes⟩⟩
  ext h := by
    obtain ⟨hhandler, harguments⟩ := validate_ext_eq_ok.mp h
    exact ⟨harguments, fun _ hes => validate_ext_eq_ok.mpr ⟨hhandler, hes⟩⟩

/-- **What passes the checks passes them when it is optimized**, also if a host is asked. -/
theorem validate_optimize {tolerances : Tolerances K} {e : Expr K}
    (h : e.validate env = .ok ()) : (e.optimize D tolerances).validate env = .ok () :=
  validate_hereditary.optimize h

/-! ## Compiling -/

/-- The checks, and that nothing is left to a host once the expression is optimized. -/
def compilable (env : Environment K D σ) (e : Expr K) : Except ExpressionError Unit := do
  e.validate env
  refusal (e.optimize D env.tolerances).extensions

/-- Optimizing leaves nothing to a host that was not left to it before. -/
theorem Plain.compilable_eq {e : Expr K} (h : e.Plain) : e.compilable env = e.validate env := by
  unfold compilable
  cases hvalidate : e.validate env with
  | error x => rfl
  | ok _ =>
    have hoptimized : (e.optimize D env.tolerances).Plain :=
      ((validate_eq_ok_iff h).mp hvalidate).optimize.plain
    rw [extensions_eq_nil_iff.mpr hoptimized]
    rfl

/-- A compiler whose second half finds what the checks find without a handler. -/
theorem verdict_compile {α : Type} {e : Expr K} {second : Except ExpressionError α}
    (h : verdict second = (e.optimize D env.tolerances).validate env.alone) :
    verdict (do e.validate env; second) = e.compilable env := by
  unfold compilable
  cases hvalidate : e.validate env with
  | error x => rfl
  | ok _ => exact h.trans (validate_alone (validate_optimize hvalidate))

end Checked

end Expr

theorem Program.verdict_compile {K D σ : Type} [Literal K] [Scalar D K] (env : Environment K D σ)
    (e : Expr K) : verdict (Program.compile env e) = e.compilable env := by
  refine Expr.verdict_compile ?_
  rw [Program.assemble, verdict_bind_pure, Expr.verdict_emitEach fun e _ => e.verdict_emit env,
    Expr.validateEach, Expr.validateEach, bind_unit_eq]

theorem NativeCode.verdict_compile {K σ : Type} [RealFunctions K] (env : Environment K K σ)
    (e : Expr K) : verdict (NativeCode.compile env e) = e.compilable env :=
  Expr.verdict_compile ((verdict_bind_pure _ _).trans (Expr.verdict_lower env _ .empty))

/-! ## All checks -/

namespace Evaluator

variable {K D σ : Type} [Literal K] [Scalar D K] (env : Environment K D σ) (e : Expr K)

theorem verdict_interpreted : verdict (interpreted env e) = e.validate env :=
  (verdict_bind_pure _ _).trans (by cases e.validate env <;> rfl)

theorem verdict_program : verdict (program env e) = e.compilable env :=
  (verdict_bind_pure _ _).trans (Program.verdict_compile env e)

end Evaluator

/-- What is checked in a domain, in which way it may be. -/
structure ChecksAgree {K D σ : Type} [Literal K] [Domain D K] (env : Environment K D σ)
    (e : Expr K) : Prop where
  /-- The assembler, if there is no handler of extension nodes. -/
  assembled : env.extension = none → ∀ a, verdict (e.emit env a) = e.validate env
  interpreted : verdict (Evaluator.interpreted env e) = e.validate env
  compiled : verdict (Program.compile env e) = e.compilable env
  /-- Every backend, if nothing is left to a host. -/
  built : e.extensions = [] → ∀ backend,
    verdict (Evaluator.build env e backend) = e.validate env

theorem checksAgree {K D σ : Type} [Literal K] [Domain D K] (env : Environment K D σ) (e : Expr K)
    (hnative : ∀ made, Domain.native? env e = some made → verdict made = e.compilable env) :
    ChecksAgree env e where
  assembled h a := by rw [Expr.verdict_emit, Environment.alone_eq_self h]
  interpreted := Evaluator.verdict_interpreted env e
  compiled := Program.verdict_compile env e
  built h backend := by
    rw [← (Expr.extensions_eq_nil_iff.mp h).compilable_eq]
    cases backend with
    | interpreted =>
      rw [(Expr.extensions_eq_nil_iff.mp h).compilable_eq]
      exact Evaluator.verdict_interpreted env e
    | program => exact Evaluator.verdict_program env e
    | jit =>
      unfold Evaluator.build
      cases hmade : Domain.native? env e with
      | some made => exact hnative made hmade
      | none => exact Evaluator.verdict_program env e

/--
**All checks agree**: they take the same expressions, and what they refuse they refuse for the
same cause. A compiler takes what the checks take, unless the optimized expression leaves a node
to a host; then it names the first one.
-/
theorem checks_agree {K σ : Type} [RealFunctions K] (e : Expr K) :
    (∀ env : Environment K K σ, ChecksAgree env e ∧
      (env.extension = none → ∀ d, verdict ((e.lower env).run d) = e.validate env) ∧
      verdict (NativeCode.compile env e) = e.compilable env) ∧
    ∀ env : Environment K (Complex K) σ, ChecksAgree env e := by
  refine ⟨fun env => ⟨?_, ?_, NativeCode.verdict_compile env e⟩, fun env => ?_⟩
  · refine checksAgree env e fun made hmade => ?_
    obtain rfl := Option.some.inj hmade
    exact (verdict_bind_pure _ _).trans (NativeCode.verdict_compile env e)
  · intro h d
    rw [Expr.verdict_lower, Environment.alone_eq_self h]
  · exact checksAgree env e fun made hmade => nomatch hmade

/-- The host that counts, with a handler of extension nodes. -/
def Environment.hosted : Environment Float Float Nat :=
  { Environment.metered with extension := some fun _ arguments => pure (arguments.headD 0) }

/-- Of two nodes of a host, one inside the other, it is the outer one that is refused. -/
theorem checks_agree_nested :
    (∀ d, verdict (((Expr.ext "f" [.ext "g" []]).lower .metered).run d) =
      .error (.unrecognizedNode "f(g())")) ∧
    verdict (Evaluator.interpreted .hosted (.call "next" [.ext "f" [.ext "g" []]])) = .ok () ∧
    verdict (NativeCode.compile .hosted (.call "next" [.ext "f" [.ext "g" []]])) =
      .error (.unrecognizedNode "f(g())") ∧
    ∀ backend, verdict (Evaluator.build .hosted (.call "next" [.var .sample]) backend) = .ok () := by
  obtain ⟨-, hlower, -⟩ := (checks_agree (Expr.ext "f" [.ext "g" []])).1 .metered
  obtain ⟨hchecks, -, hnative⟩ :=
    (checks_agree (Expr.call "next" [.ext "f" [.ext "g" []]])).1 .hosted
  obtain ⟨hbuilt, -, -⟩ := (checks_agree (Expr.call "next" [.var .sample])).1 .hosted
  exact ⟨hlower rfl, hchecks.interpreted.trans rfl, hnative.trans rfl, hbuilt.built rfl⟩

end CircuitExpr
