import Mathlib
import CircuitExpr.Proofs.Program.Compile

/-!
# Compiled programs in the complex domain

Optimizing may change the sign of a zero, and in the complex domain that sign chooses the side of
a branch cut: `sqrt(-(1))` is compiled to a program that yields the other square root. It also
drops multiplications by one, which make a difference to a number that is not finite.

Apart from the latter a compiled program agrees with evaluation as long as no function that is
called tells the two zeros apart. That is also necessary: for a function that does, adding zeros
to its arguments gives an expression whose program disagrees.

## Contents

* `Expr.Within` — expressions that use some functions only, and powers or not
* `Expr.paddedCall` — a call to whose arguments zero is added, and what becomes of it
* `compiled_agrees_complex_iff` — when all programs in the complex domain agree with evaluation
* `compiled_sqrt_differs` — a program that does not
-/

namespace CircuitExpr

/-! ## The words of an expression -/

namespace Expr

variable {K D σ : Type} [Literal K] [Scalar D K]

/-- Only some functions are called, and powers are used only if they are allowed. -/
inductive Within (names : String → Nat → Prop) (powers : Prop) : Expr K → Prop where
  | const (value : K) : Within names powers (.const value)
  | var (v : Variable) : Within names powers (.var v)
  | unary (op : UnaryOp) {operand : Expr K} (h : Within names powers operand) :
      Within names powers (.unary op operand)
  | binary {op : BinaryOp} {left right : Expr K} (hop : op = .pow → powers)
      (hleft : Within names powers left) (hright : Within names powers right) :
      Within names powers (.binary op left right)
  | cond {condition whenTrue whenFalse : Expr K} (hcondition : Within names powers condition)
      (htrue : Within names powers whenTrue) (hfalse : Within names powers whenFalse) :
      Within names powers (.cond condition whenTrue whenFalse)
  | call {name : String} {arguments : List (Expr K)} (hname : names name arguments.length)
      (h : ∀ e ∈ arguments, Within names powers e) : Within names powers (.call name arguments)
  | ext (name : String) {arguments : List (Expr K)} (h : ∀ e ∈ arguments, Within names powers e) :
      Within names powers (.ext name arguments)

/-- If all words respect similar numbers, then so do the expressions. -/
theorem Within.respectful {names : String → Nat → Prop} {powers : Prop}
    {env : Environment K D σ} {V : D → D → Prop} {S : σ → σ → Prop} {e : Expr K}
    (h : e.Within names powers) (hV : Scalar.Similarity V)
    (hpowers : powers → Scalar.PowerRespects V)
    (hnative : ∀ name count d, names name count → env.functions.resolve name count = .ok d →
      Native.Respects V S count (env.natives d.native) (env.natives d.native)) :
    e.Respectful env V S := by
  induction e using Expr.induction with
  | const value => exact .const value
  | var v => exact .var v
  | unary op operand ih =>
    cases h with
    | unary _ h => exact .unary op (ih h)
  | binary op left right ihl ihr =>
    cases h with
    | binary hop hleft hright =>
      refine .binary ?_ (ihl hleft) (ihr hright)
      by_cases hpow : op = .pow
      · exact hV.binary_of_power (hpowers (hop hpow)) _ op
      · exact hV.binary _ hpow
  | cond condition whenTrue whenFalse ihc iht ihf =>
    cases h with
    | cond hc ht hf => exact .cond (ihc hc) (iht ht) (ihf hf)
  | call name arguments ih =>
    cases h with
    | call hname h =>
      exact .call (fun d hd => hnative name _ d hname hd) fun e hmem => ih e hmem (h e hmem)
  | ext name arguments ih =>
    cases h with
    | ext _ h => exact .ext name fun e hmem => ih e hmem (h e hmem)

end Expr

/-! ## Numbered variables -/

/-- The name is as long as the number says. -/
def Variable.numbered (i : Nat) : Variable :=
  ⟨String.ofList (List.replicate i 'x'), .voltage, .value⟩

/-- The bindings of the first variables, each to the source of its number. -/
def Bindings.numbered (n : Nat) : Bindings :=
  ⟨.caseSensitive, (List.range n).map fun i => (NameComparison.caseSensitive.key (.numbered i), i)⟩

theorem Variable.numbered_key_injective {i j : Nat}
    (h : NameComparison.caseSensitive.key (.numbered i) =
      NameComparison.caseSensitive.key (.numbered j)) : i = j := by
  have hname : String.ofList (List.replicate i 'x') = String.ofList (List.replicate j 'x') :=
    congrArg VariableKey.name h
  have hlist := congrArg String.toList hname
  rw [String.toList_ofList, String.toList_ofList] at hlist
  simpa using congrArg List.length hlist

theorem Bindings.get?_numbered {i n : Nat} (h : i < n) :
    (Bindings.numbered n).get? (.numbered i) = some i := by
  have hlookup : ∀ l : List Nat, i ∈ l →
      (l.map fun j => (NameComparison.caseSensitive.key (.numbered j), j)).lookup
        (NameComparison.caseSensitive.key (.numbered i)) = some i := by
    intro l hmem
    induction l with
    | nil => exact absurd hmem List.not_mem_nil
    | cons j rest ih =>
      rw [List.map_cons, List.lookup_cons]
      by_cases hij : i = j
      · simp [hij]
      · rw [beq_eq_false_iff_ne.mpr fun hkey => hij (Variable.numbered_key_injective hkey)]
        exact ih ((List.mem_cons.mp hmem).resolve_left hij)
  exact hlookup _ (List.mem_range.mpr h)

namespace Expr

open Run

variable {K D σ : Type} [Literal K] [Scalar D K] {env : Environment K D σ} {n : Nat}

/-- A variable to which zero is added. -/
def padded (i : Nat) : Expr K := .binary .add (.var (.numbered i)) (.const 0)

theorem evaluate_numbered (henv : env.bindings = .numbered n) (setting : Setting D) {i : Nat}
    (hi : i < n) (host : σ) :
    (evaluate env setting (.var (.numbered i))).outcome host = (.ok (setting i), host) := by
  simp only [evaluate, henv, Bindings.get?_numbered hi, outcome_pure]

theorem evaluate_padded (henv : env.bindings = .numbered n) (setting : Setting D) {i : Nat}
    (hi : i < n) (host : σ) :
    (evaluate env setting (padded i)).outcome host =
      (.ok (setting i + Scalar.ofReal 0), host) := by
  rw [padded, evaluate, outcome_bind_ok (evaluate_numbered henv setting hi host), evaluate_const,
    pure_bind]
  rfl

theorem evaluateEach_map_outcome {setting : Setting D} {f : Nat → Expr K} {v : Nat → D}
    {is : List Nat} (host : σ)
    (h : ∀ i ∈ is, (evaluate env setting (f i)).outcome host = (.ok (v i), host)) :
    (evaluateEach env setting (is.map f)).outcome host = (.ok (is.map v), host) := by
  induction is with
  | nil => rw [List.map_nil, List.map_nil, evaluateEach, outcome_pure]
  | cons i rest ih =>
    have hrest := ih fun j hj => h j (List.mem_cons_of_mem i hj)
    rw [List.map_cons, List.map_cons, evaluateEach, outcome_bind_ok (h i List.mem_cons_self),
      outcome_bind_ok hrest, outcome_pure]

theorem validate_padded (henv : env.bindings = .numbered n) {i : Nat} (hi : i < n) :
    validate env (padded i) = .ok () := by
  have hbound : env.bindings.contains (.numbered i) = true := by
    rw [henv, Bindings.contains, Bindings.get?_numbered hi, Option.isSome_some]
  simp [padded, validate, lacks, BinaryOp.isOrdering, hbound, bind, Except.bind]

theorem validateEach_padded (henv : env.bindings = .numbered n) {is : List Nat}
    (h : ∀ i ∈ is, i < n) : validateEach env (is.map padded) = .ok () := by
  induction is with
  | nil => rfl
  | cons i rest ih =>
    rw [List.map_cons, validateEach, validate_padded henv (h i List.mem_cons_self)]
    exact ih fun j hj => h j (List.mem_cons_of_mem i hj)

theorem emit_numbered (henv : env.bindings = .numbered n) {i : Nat} (hi : i < n)
    (a : Assembly D) : emit env (.var (.numbered i)) a = .ok (a.load i) := by
  simp only [emit, henv, Bindings.get?_numbered hi]

theorem emitEach_numbered (henv : env.bindings = .numbered n) {is : List Nat}
    (h : ∀ i ∈ is, i < n) (a : Assembly D) :
    emitEach env (is.map fun i => .var (.numbered i)) a = .ok (is.foldl .load a) := by
  induction is generalizing a with
  | nil => rfl
  | cons i rest ih =>
    rw [List.map_cons, emitEach, emit_numbered henv (h i List.mem_cons_self)]
    exact ih (fun j hj => h j (List.mem_cons_of_mem i hj)) _

theorem onesFit_padded {setting : Setting D} {V : D → D → Prop} (i : Nat) :
    (padded i : Expr K).OnesFit env setting V :=
  .binary (.var _) (.const _) nofun

theorem within_padded {names : String → Nat → Prop} {powers : Prop} (i : Nat) :
    (padded i : Expr K).Within names powers :=
  .binary nofun (.var _) (.const _)

theorem dropNeutral_padded (hzero : ((0 : K) == 0) = true) (i : Nat) :
    (padded i : Expr K).dropNeutral = .var (.numbered i) := by
  simp [padded, dropNeutral, dropNeutralBinary, isValue, constant?, hzero]

theorem dropNeutralEach_padded (hzero : ((0 : K) == 0) = true) (is : List Nat) :
    dropNeutralEach (is.map padded : List (Expr K)) = is.map fun i => .var (.numbered i) := by
  rw [dropNeutralEach_eq_map, List.map_map]
  exact List.map_congr_left fun i _ => dropNeutral_padded hzero i

/-! ### Calls -/

/-- A call with the first variables as arguments, zero being added to each. -/
def paddedCall (name : String) (count : Nat) : Expr K :=
  .call name ((List.range count).map padded)

/-- A call with the first variables as arguments. -/
def numberedCall (name : String) (count : Nat) : Expr K :=
  .call name ((List.range count).map fun i => .var (.numbered i))

theorem optimize_paddedCall (hzero : ((0 : K) == 0) = true) (tolerances : Tolerances K)
    (name : String) (count : Nat) :
    (paddedCall name count).optimize D tolerances = numberedCall name count := by
  rw [paddedCall, numberedCall, optimize, foldConstants, foldEach_eq_map, List.map_map,
    dropNeutral]
  exact congrArg _ (dropNeutralEach_padded hzero _)

theorem within_paddedCall {names : String → Nat → Prop} {powers : Prop} {name : String}
    (hname : names name n) : (paddedCall name n : Expr K).Within names powers := by
  refine .call (by simpa using hname) fun e hmem => ?_
  obtain ⟨i, -, rfl⟩ := List.mem_map.mp hmem
  exact within_padded i

theorem onesFit_paddedCall {setting : Setting D} {V : D → D → Prop} (name : String) :
    ((paddedCall name n : Expr K).foldConstants D env.tolerances).OnesFit env setting V := by
  rw [paddedCall, foldConstants, foldEach_eq_map, List.map_map]
  refine .call name fun e hmem => ?_
  obtain ⟨i, -, rfl⟩ := List.mem_map.mp hmem
  exact onesFit_padded i

theorem validate_paddedCall {name : String} {d : FunctionDefinition K}
    (henv : env.bindings = .numbered n) (hd : env.functions.resolve name n = .ok d) :
    validate env (paddedCall name n) = .ok () := by
  rw [paddedCall, validate, List.length_map, List.length_range, hd]
  exact validateEach_padded henv fun i hi => List.mem_range.mp hi

theorem emit_numberedCall {name : String} {d : FunctionDefinition K}
    (henv : env.bindings = .numbered n) (hd : env.functions.resolve name n = .ok d)
    (a : Assembly D) : ∃ a', emit env (numberedCall name n) a = .ok a' := by
  rw [numberedCall, emit, List.length_map, List.length_range, hd]
  simp only [bind, Except.bind, emitEach_numbered henv fun i hi => List.mem_range.mp hi]
  exact ⟨_, rfl⟩

theorem evaluate_call_outcome {setting : Setting D} {name : String} {arguments : List (Expr K)}
    {values : List D} {d : FunctionDefinition K} {host : σ}
    (hd : env.functions.resolve name arguments.length = .ok d)
    (h : (evaluateEach env setting arguments).outcome host = (.ok values, host)) :
    (evaluate env setting (.call name arguments)).outcome host =
      (.ok ((env.natives d.native values).run host).1,
        ((env.natives d.native values).run host).2) := by
  rw [evaluate_call_of_ok hd]
  exact outcome_bind_ok h

/-- The setting in which the sources have the values of a list. -/
def settingOf (zs : List D) (other : D) : Setting D := fun i => zs.getD i other

theorem map_settingOf (zs : List D) (other : D) :
    (List.range zs.length).map (settingOf zs other) = zs := by
  refine List.ext_getElem (by simp) fun i hi hi' => ?_
  simp [settingOf, hi']

/-! ### Powers -/

/-- A power of the first two variables, zero being added to each. -/
def paddedPower : Expr K := .binary .pow (padded 0) (padded 1)

/-- A power of the first two variables. -/
def numberedPower : Expr K := .binary .pow (.var (.numbered 0)) (.var (.numbered 1))

theorem optimize_paddedPower (hzero : ((0 : K) == 0) = true) (tolerances : Tolerances K) :
    (paddedPower : Expr K).optimize D tolerances = numberedPower := by
  show (Expr.binary .pow (padded 0) (padded 1) : Expr K).dropNeutral = _
  rw [dropNeutral, dropNeutral_padded hzero, dropNeutral_padded hzero]
  rfl

theorem validate_paddedPower (henv : env.bindings = .numbered 2) :
    validate env paddedPower = .ok () := by
  have hlacks : lacks D BinaryOp.pow = false := rfl
  rw [paddedPower, validate, hlacks, validate_padded henv Nat.two_pos]
  exact validate_padded henv Nat.one_lt_two

theorem emit_numberedPower (henv : env.bindings = .numbered 2) (a : Assembly D) :
    emit env numberedPower a = .ok (((a.load 0).load 1).push (.apply .pow)) := by
  have hlacks : lacks D BinaryOp.pow = false := rfl
  rw [numberedPower, emit, hlacks, emit_numbered henv Nat.two_pos]
  simp only [bind, Except.bind, emit_numbered henv Nat.one_lt_two]
  rfl

section Values

variable {name : String} {d : FunctionDefinition K} {zs : List D}
  (henv : env.bindings = .numbered zs.length)
  (hd : env.functions.resolve name zs.length = .ok d) (other : D) (host : σ)
include henv hd

theorem evaluate_numberedCall :
    (evaluate env (settingOf zs other) (numberedCall name zs.length)).outcome host =
      (.ok ((env.natives d.native zs).run host).1, ((env.natives d.native zs).run host).2) := by
  refine evaluate_call_outcome (by rwa [List.length_map, List.length_range]) ?_
  rw [evaluateEach_map_outcome host fun i hi =>
    evaluate_numbered henv _ (List.mem_range.mp hi) host, map_settingOf]

theorem evaluate_paddedCall :
    (evaluate env (settingOf zs other) (paddedCall name zs.length)).outcome host =
      (.ok ((env.natives d.native (zs.map (· + Scalar.ofReal (0 : K)))).run host).1,
        ((env.natives d.native (zs.map (· + Scalar.ofReal (0 : K)))).run host).2) := by
  refine evaluate_call_outcome (by rwa [List.length_map, List.length_range]) ?_
  have hvalues : (List.range zs.length).map (fun i => settingOf zs other i + Scalar.ofReal (0 : K))
      = zs.map (· + Scalar.ofReal (0 : K)) := by
    conv_rhs => rw [← map_settingOf zs other, List.map_map]
    rfl
  rw [evaluateEach_map_outcome host fun i hi =>
    evaluate_padded henv _ (List.mem_range.mp hi) host, hvalues]

end Values

section Values

variable (henv : env.bindings = .numbered 2) (setting : Setting D) (host : σ)
include henv

theorem evaluate_numberedPower :
    (evaluate env setting numberedPower).outcome host =
      (.ok (Scalar.power (setting 0) (setting 1)), host) := by
  rw [numberedPower, evaluate, outcome_bind_ok (evaluate_numbered henv _ Nat.two_pos host),
    outcome_bind_ok (evaluate_numbered henv _ Nat.one_lt_two host)]
  rfl

theorem evaluate_paddedPower :
    (evaluate env setting paddedPower).outcome host =
      (.ok (Scalar.power (setting 0 + Scalar.ofReal (0 : K)) (setting 1 + Scalar.ofReal (0 : K))),
        host) := by
  rw [paddedPower, evaluate, outcome_bind_ok (evaluate_padded henv _ Nat.two_pos host),
    outcome_bind_ok (evaluate_padded henv _ Nat.one_lt_two host)]
  rfl

end Values

end Expr

/-! ## What agreement asks for -/

namespace Program

open Run Scalar

variable {K D σ : Type} [Literal K] [Scalar D K] {env : Environment K D σ} {V : D → D → Prop}

/-- Agreement is about the evaluation of the optimized expression. -/
theorem Agrees.optimized {S : σ → σ → Prop} {setting : Setting D} {e : Expr K}
    {p : Program K D σ} {host s t : σ} {value result : D}
    (h : Agrees V S env setting e p host) (hcompare : ComparesOrdered D)
    (hp : compile env e = .ok p)
    (hvalue : (e.evaluate env setting).outcome host = (.ok value, s))
    (hresult : ((e.optimize D env.tolerances).evaluate env setting).outcome host =
      (.ok result, t)) : V value result ∧ S s t := by
  obtain ⟨value', result', rest, s', t', -, -, hvalue', hrun, hsimilar, hstate, -⟩ := h []
  obtain ⟨result'', t'', hresult'', hrun'⟩ := compiled_run hcompare hp setting [] host
  cases hvalue.symm.trans hvalue'
  cases hresult.symm.trans hresult''
  cases hrun.symm.trans hrun'
  exact ⟨hsimilar, hstate⟩

theorem compile_paddedCall (hzero : ((0 : K) == 0) = true) {name : String} {count : Nat}
    {d : FunctionDefinition K} (henv : env.bindings = .numbered count)
    (hd : env.functions.resolve name count = .ok d) :
    ∃ p, compile env (Expr.paddedCall name count) = .ok p := by
  refine exists_compile (Expr.validate_paddedCall henv hd) ?_
  rw [Expr.optimize_paddedCall hzero]
  exact Expr.emit_numberedCall henv hd .empty

theorem compile_paddedPower (hzero : ((0 : K) == 0) = true) (henv : env.bindings = .numbered 2) :
    ∃ p, compile env Expr.paddedPower = .ok p := by
  refine exists_compile (Expr.validate_paddedPower henv) ?_
  rw [Expr.optimize_paddedPower hzero]
  exact ⟨_, Expr.emit_numberedPower henv .empty⟩

variable (env) (hcompare : ComparesOrdered D) (hV : Equivalence V) (hzero : ((0 : K) == 0) = true)
  (hcollapse : ∀ x y : D, V x y → x + ofReal (0 : K) = y + ofReal (0 : K))
include hcompare hV hzero hcollapse

/-- Similar arguments to all of which zero is added are the same arguments. -/
theorem native_respects_of_agrees {name : String} {count : Nat} {d : FunctionDefinition K}
    (henv : env.bindings = .numbered count) (hd : env.functions.resolve name count = .ok d)
    (h : ∀ p setting host, compile env (Expr.paddedCall name count) = .ok p →
      Agrees V Eq env setting (Expr.paddedCall name count) p host) :
    Native.Respects V Eq count (env.natives d.native) (env.natives d.native) := by
  obtain ⟨p, hp⟩ := compile_paddedCall hzero henv hd
  -- the additions are optimized away
  have hadded : ∀ zs : List D, zs.length = count → ∀ host,
      V ((env.natives d.native (zs.map (· + ofReal (0 : K)))).run host).1
        ((env.natives d.native zs).run host).1 ∧
      ((env.natives d.native (zs.map (· + ofReal (0 : K)))).run host).2 =
        ((env.natives d.native zs).run host).2 := by
    rintro zs rfl host
    refine (h p (Expr.settingOf zs (ofReal 0)) host hp).optimized hcompare hp
      (Expr.evaluate_paddedCall henv hd _ host) ?_
    rw [Expr.optimize_paddedCall hzero]
    exact Expr.evaluate_numberedCall henv hd _ host
  -- both calls are compared with the one whose arguments have lost their signs of zeros
  rintro xs ys hlength hxs host _ rfl
  have hsame : xs.map (· + ofReal (0 : K)) = ys.map (· + ofReal (0 : K)) := by
    rw [← List.forall₂_eq_eq_eq, List.forall₂_map_left_iff, List.forall₂_map_right_iff]
    exact hxs.imp hcollapse
  obtain ⟨hx, hxstate⟩ := hadded xs hlength host
  obtain ⟨hy, hystate⟩ := hadded ys (hxs.length_eq.symm.trans hlength) host
  rw [hsame] at hx hxstate
  exact ⟨hV.trans (hV.symm hx) hy, hxstate.symm.trans hystate⟩

/-- Similar operands to both of which zero is added are the same operands. -/
theorem powerRespects_of_agrees (host : σ) (henv : env.bindings = .numbered 2)
    (h : ∀ p setting host, compile env Expr.paddedPower = .ok p →
      Agrees V Eq env setting Expr.paddedPower p host) : PowerRespects V := by
  obtain ⟨p, hp⟩ := compile_paddedPower hzero henv
  -- the additions are optimized away
  have hadded : ∀ x y : D,
      V (Scalar.power (x + ofReal (0 : K)) (y + ofReal (0 : K))) (Scalar.power x y) := by
    intro x y
    have hnumbered := Expr.evaluate_numberedPower henv (Expr.settingOf [x, y] x) host
    rw [← Expr.optimize_paddedPower (D := D) hzero env.tolerances] at hnumbered
    exact ((h p _ host hp).optimized hcompare hp
      (Expr.evaluate_paddedPower henv _ host) hnumbered).1
  intro x x' y y' hx hy
  have hpadded := hadded x y
  rw [hcollapse x x' hx, hcollapse y y' hy] at hpadded
  exact hV.trans (hV.symm hpadded) (hadded x' y')

omit hcompare hV hzero hcollapse

/-! ## The complex domain -/

/--
**When all programs in the complex domain agree with evaluation**, up to the signs of zeros: the
functions that are called take arguments that differ in the signs of zeros to results that do so
at most, and so do powers, if they are used. The values that a dropped multiplication by one
changes are apart; those are not finite.
-/
theorem compiled_agrees_complex_iff {σ : Type} [Inhabited σ]
    (env : Environment Float (Complex Float) σ) (names : String → Nat → Prop) (powers : Prop) :
    ((powers → PowerRespects AlikeParts) ∧
      ∀ name count d, names name count → env.functions.resolve name count = .ok d →
        Native.Respects AlikeParts Eq count (env.natives d.native) (env.natives d.native)) ↔
    ∀ bindings (e : Expr Float) p, e.Within names powers →
      compile { env with bindings } e = .ok p → ∀ setting,
      (e.foldConstants (Complex Float) env.tolerances).OnesFit { env with bindings } setting
        AlikeParts →
      ∀ host, Agrees AlikeParts Eq { env with bindings } setting e p host := by
  constructor
  · rintro ⟨hpowers, hnative⟩ bindings e p he hp setting hones host
    exact compiled_agrees comparesOrdered_complex alikeParts_similarity eq_equivalence
      alikeParts_writable alikeParts_neutralZero hp
      (he.respectful alikeParts_similarity hpowers hnative) hones host
  · intro h
    constructor
    · intro hpowers
      refine powerRespects_of_agrees { env with bindings := .numbered 2 } comparesOrdered_complex
        AlikeParts.equivalence rfl AlikeParts.add_zero_eq default rfl
        fun p setting host hp => h _ _ p ?_ hp setting ?_ host
      · exact .binary (fun _ => hpowers) (Expr.within_padded 0) (Expr.within_padded 1)
      · exact .binary (Expr.onesFit_padded 0) (Expr.onesFit_padded 1) nofun
    · intro name count d hname hd
      exact native_respects_of_agrees { env with bindings := .numbered count }
        comparesOrdered_complex AlikeParts.equivalence rfl AlikeParts.add_zero_eq rfl hd
        fun p setting host hp =>
          h _ _ p (Expr.within_paddedCall hname) hp setting (Expr.onesFit_paddedCall name) host

/-- Folding `-(1)` loses the sign of the imaginary part, and with it the side of the branch cut. -/
theorem compiled_sqrt_differs :
    let env : Environment Float (Complex Float) Unit := .ofBindings (.empty .caseInsensitive)
    let e : Expr Float := .call "sqrt" [.unary .minus (.const 1)]
    ∃ p, compile env e = .ok p ∧ ∀ setting,
      (e.evaluate env setting).outcome () = (.ok ⟨0, -1⟩, ()) ∧
      (p.runOn setting []).run () = ((⟨0, 1⟩, []), ()) ∧
      ¬ AlikeParts ⟨0, -1⟩ ⟨0, 1⟩ ∧ ¬ Agrees AlikeParts Eq env setting e p () := by
  intro env e
  have hresolve : env.functions.resolve "sqrt" 1 = .ok LibraryFunction.sqrt.definition := rfl
  have hdiffer : ¬ AlikeParts ⟨0, -1⟩ ⟨0, 1⟩ := fun h =>
    absurd (h.im.beq_eq (.refl (-1))) (by decide)
  obtain ⟨p, hp⟩ : ∃ p, compile env e = .ok p := ⟨_, rfl⟩
  refine ⟨p, hp, fun setting => ?_⟩
  -- the argument lies below the branch cut, the folded one above
  have hroot : Float.sqrt 1 = 1 := by decide +kernel
  have hbelow : Complex.sqrt (⟨-1, -0⟩ : Complex Float) = ⟨0, -Float.sqrt 1⟩ := rfl
  have habove : Complex.sqrt (⟨-1, 0⟩ : Complex Float) = ⟨0, Float.sqrt 1⟩ := rfl
  rw [hroot] at hbelow habove
  have harguments : (Expr.evaluateEach env setting [.unary .minus (.const 1)]).outcome () =
      (.ok [⟨-1, -0⟩], ()) := rfl
  have hvalue : (e.evaluate env setting).outcome () = (.ok (Complex.sqrt ⟨-1, -0⟩), ()) :=
    Expr.evaluate_call_outcome hresolve harguments
  have hfolded : e.optimize (Complex Float) env.tolerances = .call "sqrt" [.const (-1)] := rfl
  have hfoldedArguments : (Expr.evaluateEach env setting [.const (-1)]).outcome () =
      (.ok [⟨-1, 0⟩], ()) := rfl
  have hfoldedValue : ((e.optimize (Complex Float) env.tolerances).evaluate env setting).outcome ()
      = (.ok (Complex.sqrt ⟨-1, 0⟩), ()) := by
    rw [hfolded]
    exact Expr.evaluate_call_outcome hresolve hfoldedArguments
  rw [hbelow] at hvalue
  rw [habove] at hfoldedValue
  obtain ⟨result, host, hresult, hrun⟩ := compiled_run comparesOrdered_complex hp setting [] ()
  cases hfoldedValue.symm.trans hresult
  exact ⟨hvalue, hrun, hdiffer, fun h =>
    hdiffer (h.optimized comparesOrdered_complex hp hvalue hfoldedValue).1⟩

end Program

end CircuitExpr
