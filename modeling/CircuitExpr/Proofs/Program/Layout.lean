import Mathlib
import CircuitExpr.Program.Assemble
import CircuitExpr.Proofs.Evaluation.Outcome

/-!
# The layout of assembled code

Assembling writes the code of an expression bit by bit and goes back to put in jump targets.
`Expr.Placed` says what has come about when it is done: which instructions stand between two
places, with which heights of the stack in front of them, and what their slots hold. It is said of
the finished assembly, and it follows the structure of the expression.

## Main statements

* `emit_placed` — what an accepted expression is assembled to is laid out in this way
* `emitEach_placed` — the same for several expressions on one assembly

Until the end a piece of code is followed by more code, and targets in front of it are put in
later. `Assembly.Keeps` says that none of this touches the piece.
-/

namespace CircuitExpr

namespace Assembly

variable {D : Type} {a b c : Assembly D}

/-! ## Pieces that stay as they are -/

/-- An instruction of an assembly, with the height of the stack in front of it. -/
structure Has (a : Assembly D) (place height : Nat) (i : Instruction D) : Prop where
  code_eq : a.code[place]? = some i
  height_eq : a.heights[place]? = some height
  fits : height - i.takes + i.puts ≤ a.maxDepth

/-- From `a` to `b` the places from `start` up to `stop` stay, and nothing captured is lost. -/
structure Keeps (a b : Assembly D) (start stop : Nat) : Prop where
  code : ∀ place, start ≤ place → place < stop → b.code[place]? = a.code[place]?
  heights : ∀ place, start ≤ place → place < stop → b.heights[place]? = a.heights[place]?
  sources : a.captures.sources <+: b.captures.sources
  functions : a.captures.functions <+: b.captures.functions
  maxDepth : a.maxDepth ≤ b.maxDepth

/-- `b` is `a` with more code behind it. -/
structure Grows (a b : Assembly D) : Prop where
  size : a.code.size ≤ b.code.size
  keeps : Keeps a b 0 a.code.size

theorem Keeps.refl (a : Assembly D) (start stop : Nat) : Keeps a a start stop :=
  ⟨fun _ _ _ => rfl, fun _ _ _ => rfl, List.prefix_refl _, List.prefix_refl _, Nat.le_refl _⟩

theorem Keeps.trans {start stop : Nat} (hab : Keeps a b start stop) (hbc : Keeps b c start stop) :
    Keeps a c start stop where
  code place h₁ h₂ := (hbc.code place h₁ h₂).trans (hab.code place h₁ h₂)
  heights place h₁ h₂ := (hbc.heights place h₁ h₂).trans (hab.heights place h₁ h₂)
  sources := hab.sources.trans hbc.sources
  functions := hab.functions.trans hbc.functions
  maxDepth := Nat.le_trans hab.maxDepth hbc.maxDepth

theorem Keeps.narrow {start stop start' stop' : Nat} (h : Keeps a b start stop)
    (hstart : start ≤ start') (hstop : stop' ≤ stop) : Keeps a b start' stop' where
  code place h₁ h₂ := h.code place (by omega) (by omega)
  heights place h₁ h₂ := h.heights place (by omega) (by omega)
  sources := h.sources
  functions := h.functions
  maxDepth := h.maxDepth

theorem Grows.refl (a : Assembly D) : Grows a a := ⟨Nat.le_refl _, Keeps.refl a _ _⟩

theorem Grows.trans (hab : Grows a b) (hbc : Grows b c) : Grows a c where
  size := Nat.le_trans hab.size hbc.size
  keeps := hab.keeps.trans (hbc.keeps.narrow (Nat.le_refl _) hab.size)

/-- What is written stays when code is added. -/
theorem Grows.keeps_upTo (h : Grows a b) {start stop : Nat} (hstop : stop ≤ a.code.size) :
    Keeps a b start stop :=
  h.keeps.narrow (Nat.zero_le _) hstop

theorem Has.keep {start stop place height : Nat} {i : Instruction D} (h : a.Has place height i)
    (hk : Keeps a b start stop) (hstart : start ≤ place) (hstop : place < stop) :
    b.Has place height i where
  code_eq := by rw [hk.code place hstart hstop, h.code_eq]
  height_eq := by rw [hk.heights place hstart hstop, h.height_eq]
  fits := Nat.le_trans h.fits hk.maxDepth

/-! ## The single steps of assembling -/

@[simp] theorem push_size (a : Assembly D) (i : Instruction D) :
    (a.push i).code.size = a.code.size + 1 := by simp [push]

@[simp] theorem push_depth (a : Assembly D) (i : Instruction D) :
    (a.push i).depth = a.depth - i.takes + i.puts := rfl

@[simp] theorem patch_size (a : Assembly D) (place : Nat) (jump : Nat → Instruction D) :
    (a.patch place jump).code.size = a.code.size := by simp [patch]

@[simp] theorem patch_depth (a : Assembly D) (place : Nat) (jump : Nat → Instruction D) :
    (a.patch place jump).depth = a.depth := rfl

theorem push_grows (a : Assembly D) (i : Instruction D) : Grows a (a.push i) where
  size := by simp
  keeps :=
    { code := fun place _ h => Array.getElem?_push_lt h ▸ (Array.getElem?_eq_getElem h).symm
      heights := fun place _ h => by
        have hh : place < a.heights.size := a.heights_size ▸ h
        exact Array.getElem?_push_lt hh ▸ (Array.getElem?_eq_getElem hh).symm
      sources := List.prefix_refl _
      functions := List.prefix_refl _
      maxDepth := Nat.le_max_left _ _ }

theorem push_has (a : Assembly D) (i : Instruction D) :
    (a.push i).Has a.code.size a.depth i where
  code_eq := Array.getElem?_push_size
  height_eq := by
    rw [← a.heights_size]
    exact Array.getElem?_push_size
  fits := Nat.le_max_right _ _

theorem load_grows (a : Assembly D) (source : SourceId) : Grows a (a.load source) := by
  have h := push_grows { a with captures := a.captures.withSource source }
    (.load ((a.captures.withSource source).sourceSlot source))
  exact ⟨h.size, h.keeps.code, h.keeps.heights,
    (Captures.prefix_adjoin a.captures.sources source).trans h.keeps.sources, h.keeps.functions,
    h.keeps.maxDepth⟩

theorem load_has (a : Assembly D) (source : SourceId) :
    (a.load source).Has a.code.size a.depth
      (.load ((a.captures.withSource source).sourceSlot source)) :=
  have h := push_has { a with captures := a.captures.withSource source }
    (.load ((a.captures.withSource source).sourceSlot source))
  ⟨h.code_eq, h.height_eq, h.fits⟩

/-- The slot of a captured source holds it. -/
theorem load_source (a : Assembly D) (source : SourceId) :
    (a.load source).captures.sources[(a.captures.withSource source).sourceSlot source]?
      = some source :=
  Captures.getElem?_sourceSlot (Captures.mem_adjoin a.captures.sources source)

/-- The slot of a captured function holds it. -/
theorem withFunction_function (a : Assembly D) (f : Native) :
    (a.withFunction f).captures.functions[(a.withFunction f).captures.functionSlot f]? = some f :=
  Captures.getElem?_functionSlot (Captures.mem_adjoin a.captures.functions f)

theorem withFunction_grows (a : Assembly D) (f : Native) : Grows a (a.withFunction f) :=
  ⟨Nat.le_refl _, fun _ _ _ => rfl, fun _ _ _ => rfl, List.prefix_refl _,
    Captures.prefix_adjoin a.captures.functions f, Nat.le_refl _⟩

/-- Putting in a target leaves all other places alone. -/
theorem patch_keeps (a : Assembly D) {place start stop : Nat} (jump : Nat → Instruction D)
    (h : place < start ∨ stop ≤ place) : Keeps a (a.patch place jump) start stop where
  code k h₁ h₂ := Array.getElem?_setIfInBounds_ne (by omega)
  heights _ _ _ := rfl
  sources := List.prefix_refl _
  functions := List.prefix_refl _
  maxDepth := Nat.le_refl _

theorem withDepth_keeps (a : Assembly D) (depth start stop : Nat) :
    Keeps a (a.withDepth depth) start stop :=
  ⟨fun _ _ _ => rfl, fun _ _ _ => rfl, List.prefix_refl _, List.prefix_refl _, Nat.le_refl _⟩

/-- A jump that stays until its target is put in stands there with the target. -/
theorem Has.patch {place height : Nat} {blank : Instruction D} (h : a.Has place height blank)
    (hk : Keeps a b place (place + 1)) (jump : Nat → Instruction D)
    (htakes : (jump b.code.size).takes = blank.takes)
    (hputs : (jump b.code.size).puts = blank.puts) :
    (b.patch place jump).Has place height (jump b.code.size) := by
  have hb := h.keep hk (Nat.le_refl _) (Nat.lt_succ_self _)
  have hlt : place < b.code.size := (Array.getElem?_eq_some_iff.mp hb.code_eq).1
  refine ⟨Array.getElem?_setIfInBounds_self_of_lt hlt, hb.height_eq, ?_⟩
  rw [htakes, hputs]
  exact hb.fits

end Assembly

namespace Expr

variable {K D σ : Type} [Scalar D K]

/-! ## Layout -/

mutual

/-- The code of an expression stands from `start` up to `stop`, at first at height `depth`. -/
def Placed (env : Environment K D σ) (a : Assembly D) : Expr K → Nat → Nat → Nat → Prop
  | .const value, start, depth, stop =>
    a.Has start depth (.const (Scalar.ofReal value)) ∧ stop = start + 1
  | .var v, start, depth, stop =>
    ∃ source slot, env.bindings.get? v = some source ∧
      a.captures.sources[slot]? = some source ∧ a.Has start depth (.load slot) ∧ stop = start + 1
  | .unary .plus operand, start, depth, stop => Placed env a operand start depth stop
  | .unary .minus operand, start, depth, stop =>
    ∃ mid, Placed env a operand start depth mid ∧ a.Has mid (depth + 1) .neg ∧ stop = mid + 1
  | .unary .not operand, start, depth, stop =>
    ∃ mid, Placed env a operand start depth mid ∧ a.Has mid (depth + 1) .not ∧ stop = mid + 1
  | .binary op left right, start, depth, stop =>
    lacks D op = false ∧ ∃ mid last, Placed env a left start depth mid ∧
      Placed env a right mid (depth + 1) last ∧ a.Has last (depth + 2) (.apply op) ∧
      stop = last + 1
  | .cond condition whenTrue whenFalse, start, depth, stop =>
    ∃ branch exit, Placed env a condition start depth branch ∧
      a.Has branch (depth + 1) (.jumpIfFalse (exit + 1)) ∧
      Placed env a whenTrue (branch + 1) depth exit ∧ a.Has exit (depth + 1) (.jump stop) ∧
      Placed env a whenFalse (exit + 1) depth stop
  | .call name arguments, start, depth, stop =>
    ∃ d slot last, env.functions.resolve name arguments.length = .ok d ∧
      a.captures.functions[slot]? = some d.native ∧ PlacedEach env a arguments start depth last ∧
      a.Has last (depth + arguments.length) (.call slot arguments.length) ∧ stop = last + 1
  | .ext _ _, _, _, _ => False

/-- The code of several expressions stands one after another. -/
def PlacedEach (env : Environment K D σ) (a : Assembly D) :
    List (Expr K) → Nat → Nat → Nat → Prop
  | [], start, _, stop => stop = start
  | e :: rest, start, depth, stop =>
    ∃ mid, Placed env a e start depth mid ∧ PlacedEach env a rest mid (depth + 1) stop

end

variable {env : Environment K D σ} {a b : Assembly D}

theorem PlacedEach.le {es : List (Expr K)}
    (h : ∀ e ∈ es, ∀ {start depth stop}, Placed env a e start depth stop → start < stop) :
    ∀ {start depth stop}, PlacedEach env a es start depth stop → start ≤ stop := by
  induction es with
  | nil =>
    intro start depth stop hp
    exact Nat.le_of_eq hp.symm
  | cons e rest ih =>
    intro start depth stop hp
    obtain ⟨mid, hfirst, hrest⟩ := hp
    have h₁ := h e (by simp) hfirst
    have h₂ := ih (fun x hx => h x (by simp [hx])) hrest
    omega

/-- Every expression takes at least one instruction. -/
theorem Placed.lt {e : Expr K} :
    ∀ {start depth stop}, Placed env a e start depth stop → start < stop := by
  induction e using Expr.induction with
  | const value =>
    rintro start depth stop ⟨-, rfl⟩
    omega
  | var v =>
    rintro start depth stop ⟨_, _, -, -, -, rfl⟩
    omega
  | unary op operand ih =>
    intro start depth stop h
    cases op with
    | plus => exact ih h
    | minus | not =>
      obtain ⟨mid, hoperand, -, rfl⟩ := h
      have := ih hoperand
      omega
  | binary op left right ihl ihr =>
    rintro start depth stop ⟨-, mid, last, hleft, hright, -, rfl⟩
    have := ihl hleft
    have := ihr hright
    omega
  | cond condition whenTrue whenFalse ihc iht ihf =>
    rintro start depth stop ⟨branch, exit, hcondition, -, htrue, -, hfalse⟩
    have := ihc hcondition
    have := iht htrue
    have := ihf hfalse
    omega
  | call name arguments ih =>
    rintro start depth stop ⟨d, slot, last, -, -, harguments, -, rfl⟩
    have := PlacedEach.le ih harguments
    omega
  | ext name arguments => exact fun h => h.elim

theorem getElem?_of_prefix {α : Type} {l m : List α} (h : l <+: m) {k : Nat} {x : α}
    (hk : l[k]? = some x) : m[k]? = some x := by
  obtain ⟨t, rfl⟩ := h
  rw [List.getElem?_append_left (List.getElem?_eq_some_iff.mp hk).1, hk]

/-! ### Layout survives what is done elsewhere -/

theorem PlacedEach.keep {es : List (Expr K)}
    (h : ∀ e ∈ es, ∀ {start depth stop}, Placed env a e start depth stop →
      a.Keeps b start stop → Placed env b e start depth stop) :
    ∀ {start depth stop}, PlacedEach env a es start depth stop → a.Keeps b start stop →
      PlacedEach env b es start depth stop := by
  induction es with
  | nil => exact fun hp _ => hp
  | cons e rest ih =>
    intro start depth stop hp hk
    obtain ⟨mid, hfirst, hrest⟩ := hp
    have h₁ := hfirst.lt
    have h₂ := PlacedEach.le (fun _ _ => Placed.lt) hrest
    exact ⟨mid, h e (by simp) hfirst (hk.narrow (Nat.le_refl _) h₂),
      ih (fun x hx => h x (by simp [hx])) hrest (hk.narrow (by omega) (Nat.le_refl _))⟩

theorem Placed.keep {e : Expr K} :
    ∀ {start depth stop}, Placed env a e start depth stop → a.Keeps b start stop →
      Placed env b e start depth stop := by
  induction e using Expr.induction with
  | const value =>
    rintro start depth stop ⟨hhas, rfl⟩ hk
    exact ⟨hhas.keep hk (Nat.le_refl _) (by omega), rfl⟩
  | var v =>
    rintro start depth stop ⟨source, slot, hget, hslot, hhas, rfl⟩ hk
    exact ⟨source, slot, hget, getElem?_of_prefix hk.sources hslot,
      hhas.keep hk (Nat.le_refl _) (by omega), rfl⟩
  | unary op operand ih =>
    intro start depth stop h hk
    cases op with
    | plus => exact ih h hk
    | minus | not =>
      obtain ⟨mid, hoperand, hhas, rfl⟩ := h
      have := Placed.lt hoperand
      exact ⟨mid, ih hoperand (hk.narrow (Nat.le_refl _) (by omega)),
        hhas.keep hk (by omega) (by omega), rfl⟩
  | binary op left right ihl ihr =>
    rintro start depth stop ⟨hlacks, mid, last, hleft, hright, hhas, rfl⟩ hk
    have := Placed.lt hleft
    have := Placed.lt hright
    exact ⟨hlacks, mid, last, ihl hleft (hk.narrow (Nat.le_refl _) (by omega)),
      ihr hright (hk.narrow (by omega) (by omega)), hhas.keep hk (by omega) (by omega), rfl⟩
  | cond condition whenTrue whenFalse ihc iht ihf =>
    rintro start depth stop ⟨branch, exit, hcondition, hbranch, htrue, hexit, hfalse⟩ hk
    have := Placed.lt hcondition
    have := Placed.lt htrue
    have := Placed.lt hfalse
    exact ⟨branch, exit, ihc hcondition (hk.narrow (Nat.le_refl _) (by omega)),
      hbranch.keep hk (by omega) (by omega), iht htrue (hk.narrow (by omega) (by omega)),
      hexit.keep hk (by omega) (by omega), ihf hfalse (hk.narrow (by omega) (by omega))⟩
  | call name arguments ih =>
    rintro start depth stop ⟨d, slot, last, hresolve, hslot, harguments, hhas, rfl⟩ hk
    have := PlacedEach.le (fun _ _ => Placed.lt) harguments
    exact ⟨d, slot, last, hresolve, getElem?_of_prefix hk.functions hslot,
      PlacedEach.keep ih harguments (hk.narrow (Nat.le_refl _) (by omega)),
      hhas.keep hk (by omega) (by omega), rfl⟩
  | ext name arguments => exact fun h _ => h.elim

/-- What stands in an assembly stands there still when an instruction is appended. -/
theorem Placed.push {e : Expr K} {start depth : Nat} (i : Instruction D)
    (h : Placed env a e start depth a.code.size) :
    Placed env (a.push i) e start depth a.code.size :=
  h.keep ((a.push_grows i).keeps_upTo (Nat.le_refl _))

/-! ## What assembling makes of an assembly -/

/-- What assembling an expression on `a` makes of it. -/
structure Emitted (env : Environment K D σ) (e : Expr K) (a b : Assembly D) : Prop where
  grows : a.Grows b
  depth : b.depth = a.depth + 1
  placed : Placed env b e a.code.size a.depth b.code.size

/-- What assembling several expressions on `a` makes of it. -/
structure EmittedEach (env : Environment K D σ) (es : List (Expr K)) (a b : Assembly D) :
    Prop where
  grows : a.Grows b
  depth : b.depth = a.depth + es.length
  placed : PlacedEach env b es a.code.size a.depth b.code.size

theorem Emitted.unary {op : UnaryOp} {operand : Expr K} (h : Emitted env operand a b) :
    Emitted env (.unary op operand) a (emitUnary op b) := by
  cases op with
  | plus => exact ⟨h.grows, h.depth, h.placed⟩
  | minus | not =>
    refine ⟨h.grows.trans (b.push_grows _), ?_, b.code.size, h.placed.push _, ?_, b.push_size _⟩
    · simp [emitUnary, Instruction.takes, Instruction.puts, h.depth]
    · rw [← h.depth]
      exact b.push_has _

theorem Emitted.binary {op : BinaryOp} {left right : Expr K} {m n : Assembly D}
    (hlacks : lacks D op = false) (hleft : Emitted env left a m) (hright : Emitted env right m n) :
    Emitted env (.binary op left right) a (n.push (.apply op)) := by
  have hdepth : n.depth = a.depth + 2 := by rw [hright.depth, hleft.depth]
  refine ⟨(hleft.grows.trans hright.grows).trans (n.push_grows _), ?_, hlacks, m.code.size,
    n.code.size, ?_, ?_, ?_, n.push_size _⟩
  · simp [Instruction.takes, Instruction.puts, hdepth]
  · exact hleft.placed.keep ((hright.grows.trans (n.push_grows _)).keeps_upTo (Nat.le_refl _))
  · rw [← hleft.depth]
    exact hright.placed.push _
  · rw [← hdepth]
    exact n.push_has _

theorem Emitted.call {name : String} {arguments : List (Expr K)} {d : FunctionDefinition K}
    {m : Assembly D} (hd : env.functions.resolve name arguments.length = .ok d)
    (h : EmittedEach env arguments (a.withFunction d.native) m) :
    Emitted env (.call name arguments) a
      (m.push (.call ((a.withFunction d.native).captures.functionSlot d.native)
        arguments.length)) := by
  have hdepth : m.depth = a.depth + arguments.length := h.depth
  refine ⟨((a.withFunction_grows d.native).trans h.grows).trans (m.push_grows _), ?_, d,
    (a.withFunction d.native).captures.functionSlot d.native, m.code.size, hd, ?_, ?_, ?_,
    m.push_size _⟩
  · simp [Instruction.takes, Instruction.puts, hdepth]
  · exact getElem?_of_prefix h.grows.keeps.functions (a.withFunction_function d.native)
  · exact PlacedEach.keep (fun _ _ => Placed.keep) h.placed
      ((m.push_grows _).keeps_upTo (Nat.le_refl _))
  · rw [← hdepth]
    exact m.push_has _

/-- Both jumps of a conditional are written open. The first gets its target in front of the code
of the third operand, the second behind it. -/
theorem Emitted.cond {condition whenTrue whenFalse : Expr K} {m p n q r o : Assembly D}
    (hp : m.push (.jumpIfFalse Assembly.openTarget) = p)
    (hq : n.push (.jump Assembly.openTarget) = q)
    (hr : (q.withDepth p.depth).patch m.code.size .jumpIfFalse = r)
    (hcondition : Emitted env condition a m) (htrue : Emitted env whenTrue p n)
    (hfalse : Emitted env whenFalse r o) :
    Emitted env (.cond condition whenTrue whenFalse) a (o.patch n.code.size .jump) := by
  have hpsize : p.code.size = m.code.size + 1 := by simp [← hp]
  have hpdepth : p.depth = a.depth := by
    simp [← hp, Instruction.takes, Instruction.puts, hcondition.depth]
  have hndepth : n.depth = a.depth + 1 := by rw [htrue.depth, hpdepth]
  have hqsize : q.code.size = n.code.size + 1 := by simp [← hq]
  have hrsize : r.code.size = n.code.size + 1 := by simp [← hr, Assembly.withDepth, hqsize]
  have hrdepth : r.depth = a.depth := by simp [← hr, Assembly.withDepth, hpdepth]
  have hmp : m.Grows p := hp ▸ m.push_grows _
  have hnq : n.Grows q := hq ▸ n.push_grows _
  have hmn : m.code.size < n.code.size := by
    have := htrue.grows.size
    omega
  -- from `q` on, code is only added, but for the two targets
  have hqr : ∀ {start stop}, (m.code.size < start ∨ stop ≤ m.code.size) →
      q.Keeps r start stop := by
    intro start stop hm
    exact hr ▸ (q.withDepth_keeps p.depth start stop).trans (Assembly.patch_keeps _ _ hm)
  have hlast : ∀ {start stop}, (m.code.size < start ∨ stop ≤ m.code.size) →
      (n.code.size < start ∨ stop ≤ n.code.size) → stop ≤ n.code.size + 1 →
      q.Keeps (o.patch n.code.size .jump) start stop := by
    intro start stop hm hn hstop
    exact ((hqr hm).trans (hfalse.grows.keeps_upTo (by omega))).trans (o.patch_keeps _ hn)
  refine ⟨⟨?_, ?_⟩, ?_, m.code.size, n.code.size, ?_, ?_, ?_, ?_, ?_⟩
  · have := hcondition.grows.size
    have := hfalse.grows.size
    simp
    omega
  · have hsize := hcondition.grows.size
    have hgrows := ((hcondition.grows.trans hmp).trans htrue.grows).trans hnq
    exact hgrows.keeps.trans (hlast (.inr hsize) (.inr (by omega)) (by omega))
  · rw [Assembly.patch_depth, hfalse.depth, hrdepth]
  · have hgrows := (hmp.trans htrue.grows).trans hnq
    exact hcondition.placed.keep ((hgrows.keeps_upTo (Nat.le_refl _)).trans
      (hlast (.inr (Nat.le_refl _)) (.inr (by omega)) (by omega)))
  · -- the first jump gets its target behind the second one
    have hblank : p.Has m.code.size m.depth (.jumpIfFalse Assembly.openTarget) :=
      hp ▸ m.push_has _
    have hopen : p.Keeps (q.withDepth p.depth) m.code.size (m.code.size + 1) :=
      ((htrue.grows.trans hnq).keeps_upTo (by omega)).trans (q.withDepth_keeps _ _ _)
    have hjump := hr ▸ hblank.patch hopen .jumpIfFalse rfl rfl
    have hkept : r.Keeps (o.patch n.code.size .jump) m.code.size (m.code.size + 1) :=
      (hfalse.grows.keeps_upTo (by omega)).trans (o.patch_keeps _ (.inr hmn))
    have hdone := hjump.keep hkept (Nat.le_refl _) (Nat.lt_succ_self _)
    rw [hcondition.depth] at hdone
    exact hqsize ▸ hdone
  · rw [← hpsize, ← hpdepth]
    exact htrue.placed.keep ((hnq.keeps_upTo (Nat.le_refl _)).trans
      (hlast (.inl (by omega)) (.inr (Nat.le_refl _)) (by omega)))
  · -- the second jump gets its target at the end
    have hblank : q.Has n.code.size n.depth (.jump Assembly.openTarget) := hq ▸ n.push_has _
    have hopen : q.Keeps o n.code.size (n.code.size + 1) :=
      (hqr (.inl hmn)).trans (hfalse.grows.keeps_upTo (by omega))
    have hdone := hblank.patch hopen .jump rfl rfl
    rw [hndepth] at hdone
    rw [Assembly.patch_size]
    exact hdone
  · rw [← hrsize, ← hrdepth, Assembly.patch_size]
    exact hfalse.placed.keep (o.patch_keeps _ (.inl (by omega)))

/-! ## What assembling does -/

variable [Literal K]

theorem emit_unary_eq_ok {op : UnaryOp} {operand : Expr K} :
    emit env (.unary op operand) a = .ok b ↔
      ∃ m, emit env operand a = .ok m ∧ emitUnary op m = b := by
  simp only [emit, bind_eq_ok, pure, Except.pure, Except.ok.injEq]

theorem emit_binary_eq_ok {op : BinaryOp} {left right : Expr K} :
    emit env (.binary op left right) a = .ok b ↔
      lacks D op = false ∧ ∃ m, emit env left a = .ok m ∧
        ∃ n, emit env right m = .ok n ∧ n.push (.apply op) = b := by
  simp only [emit, ite_error_eq_ok, bind_eq_ok, pure, Except.pure, Except.ok.injEq]

theorem emit_cond_eq_ok {condition whenTrue whenFalse : Expr K} :
    emit env (.cond condition whenTrue whenFalse) a = .ok b ↔
      ∃ m, emit env condition a = .ok m ∧
        ∃ n, emit env whenTrue (m.push (.jumpIfFalse Assembly.openTarget)) = .ok n ∧
          ∃ o, emit env whenFalse
            (((n.push (.jump Assembly.openTarget)).withDepth
              (m.push (.jumpIfFalse Assembly.openTarget)).depth).patch m.code.size .jumpIfFalse)
              = .ok o ∧
            o.patch n.code.size .jump = b := by
  simp only [emit, bind_eq_ok, pure, Except.pure, Except.ok.injEq]

theorem emit_call_eq_ok {name : String} {arguments : List (Expr K)} :
    emit env (.call name arguments) a = .ok b ↔
      ∃ d, env.functions.resolve name arguments.length = .ok d ∧
        ∃ m, emitEach env arguments (a.withFunction d.native) = .ok m ∧
          m.push (.call ((a.withFunction d.native).captures.functionSlot d.native)
            arguments.length) = b := by
  simp only [emit, bind_eq_ok, pure, Except.pure, Except.ok.injEq]

theorem emitEach_placed_of {es : List (Expr K)}
    (h : ∀ e ∈ es, ∀ {a b}, emit env e a = .ok b → Emitted env e a b) :
    ∀ {a b}, emitEach env es a = .ok b → EmittedEach env es a b := by
  induction es with
  | nil =>
    intro a b hab
    rw [emitEach] at hab
    cases hab
    exact ⟨.refl a, rfl, rfl⟩
  | cons e rest ih =>
    intro a b hab
    rw [emitEach, bind_eq_ok] at hab
    obtain ⟨m, ham, hmb⟩ := hab
    have h₁ := h e (by simp) ham
    have h₂ := ih (fun x hx => h x (by simp [hx])) hmb
    refine ⟨h₁.grows.trans h₂.grows, ?_, m.code.size, ?_, ?_⟩
    · rw [h₂.depth, h₁.depth, List.length_cons]
      omega
    · exact h₁.placed.keep (h₂.grows.keeps_upTo (Nat.le_refl _))
    · rw [← h₁.depth]
      exact h₂.placed

theorem emit_placed {e : Expr K} :
    ∀ {a b}, emit env e a = .ok b → Emitted env e a b := by
  induction e using Expr.induction with
  | const value =>
    intro a b h
    rw [emit] at h
    cases h
    exact ⟨a.push_grows _, rfl, a.push_has _, a.push_size _⟩
  | var v =>
    intro a b h
    obtain ⟨source, hget, rfl⟩ := emit_var_eq_ok.mp h
    exact ⟨a.load_grows source, rfl, source, _, hget, a.load_source source, a.load_has source,
      Assembly.push_size _ _⟩
  | unary op operand ih =>
    intro a b h
    obtain ⟨m, hm, rfl⟩ := emit_unary_eq_ok.mp h
    exact (ih hm).unary
  | binary op left right ihl ihr =>
    intro a b h
    obtain ⟨hlacks, m, hm, n, hn, rfl⟩ := emit_binary_eq_ok.mp h
    exact .binary hlacks (ihl hm) (ihr hn)
  | cond condition whenTrue whenFalse ihc iht ihf =>
    intro a b h
    obtain ⟨m, hm, n, hn, o, ho, rfl⟩ := emit_cond_eq_ok.mp h
    exact .cond rfl rfl rfl (ihc hm) (iht hn) (ihf ho)
  | call name arguments ih =>
    intro a b h
    obtain ⟨d, hd, m, hm, rfl⟩ := emit_call_eq_ok.mp h
    exact .call hd (emitEach_placed_of ih hm)
  | ext name arguments =>
    intro a b h
    simp [emit] at h

/-- Several accepted expressions are laid out one after another. -/
theorem emitEach_placed {es : List (Expr K)} (h : emitEach env es a = .ok b) :
    EmittedEach env es a b :=
  emitEach_placed_of (fun _ _ => emit_placed) h

end Expr

end CircuitExpr
