import Mathlib
import CircuitExpr.Grammar.Read
import CircuitExpr.Proofs.Grammar.Conservation

/-!
# The names of an expression and of its tree

What a tree stands for has the names that the operators of the tree contribute: what a name in the
text stands for, and the name of each function that is called. However a tree is read, behind
minus signs, in a row of powers or as arguments, no part of it is left out or read twice. A tree
with a quoted text or an assignment in it is no expression.

## Main statements

* `Expr.written` — the names of the parameters and of the calls of an expression
* `Accounts`, `Reading.Covers` — an expression, or a reading, with the names of operators
* `Reading.covers_ofNode` — the step from the parts of a tree to the tree
* `OperatorTree.accounts_toExpr` — **an expression has the names of its tree**
-/

namespace CircuitExpr

/-! ## Names -/

/-- A name that an expression has from its text: that of a parameter or of a function. -/
inductive Name where
  | parameter (name : String)
  | call (name : String)
deriving DecidableEq

/-- How a name is spelled. -/
def Name.text : Name → String
  | parameter name | call name => name

namespace Expr

section Written

variable {K : Type}

mutual

/-- The names of parameters and calls, each as often as it occurs. -/
def written : Expr K → Multiset Name
  | .const _ => 0
  | .var v => if v.kind = .parameter then {.parameter v.name} else 0
  | .unary _ operand => written operand
  | .binary _ left right => written left + written right
  | .cond condition whenTrue whenFalse =>
    written condition + written whenTrue + written whenFalse
  | .call name arguments | .ext name arguments => {.call name} + writtenEach arguments

/-- The names of several expressions. -/
def writtenEach : List (Expr K) → Multiset Name
  | [] => 0
  | e :: rest => written e + writtenEach rest

end

attribute [simp] written writtenEach

@[simp] theorem writtenEach_append (es es' : List (Expr K)) :
    writtenEach (es ++ es') = writtenEach es + writtenEach es' := by
  induction es with
  | nil => simp
  | cons e rest ih =>
    simp only [List.cons_append, writtenEach, ih]
    abel

end Written

@[simp] theorem written_negateTimes (n : Nat) (e : Expr Float) :
    (negateTimes n e).written = e.written := by
  induction n with
  | zero => rfl
  | succ n ih => exact ih

@[simp] theorem written_powers (base : Expr Float) (es : List (Expr Float)) :
    (powers base es).written = base.written + writtenEach es := by
  induction es generalizing base with
  | nil => simp [powers]
  | cons e rest ih => simp [powers, ih]

theorem written_signedPowers {n : Nat} {es : List (Expr Float)} {e : Expr Float}
    (h : signedPowers n es = .ok e) : e.written = writtenEach es := by
  cases es with
  | nil => cases h
  | cons base rest =>
    cases h
    simp

theorem written_foldOperands {op : BinaryOp} {es : List (Expr Float)} {e : Expr Float}
    (h : foldOperands op es = .ok e) : e.written = writtenEach es := by
  have hfold : ∀ (rest : List (Expr Float)) (acc : Expr Float),
      (rest.foldl (fun acc e => .binary op acc e) acc).written =
        acc.written + writtenEach rest := by
    intro rest
    induction rest with
    | nil => simp
    | cons e rest ih =>
      intro acc
      rw [List.foldl_cons, ih]
      simp [add_assoc]
  cases es with
  | nil => cases h
  | cons first rest =>
    cases rest with
    | nil => cases h
    | cons second rest =>
      cases h
      simp [hfold, add_assoc]

/-- Names that are no functions although something is written behind them like an argument. -/
def isKeyword (name : List Char) : Bool :=
  Text.lowerChars name == "if".toList || Text.lowerChars name == "xor".toList

/-- A call has its own name unless this is a keyword, and the names of its arguments. -/
theorem written_ofCall {name : List Char} {arguments : List (Expr Float)} {e : Expr Float}
    (h : ofCall name arguments = .ok e) :
    e.written = (if isKeyword name then 0 else {.call (String.ofList name)}) +
      writtenEach arguments := by
  simp only [ofCall] at h
  by_cases hif : Text.lowerChars name == "if".toList
  · have hkeyword : isKeyword name = true := by rw [isKeyword, hif, Bool.true_or]
    rw [if_pos hif] at h
    split at h
    · cases h
      simp [hkeyword, add_assoc]
    · cases h
  · rw [if_neg hif] at h
    by_cases hxor : Text.lowerChars name == "xor".toList
    · have hkeyword : isKeyword name = true := by rw [isKeyword, hxor, Bool.or_true]
      rw [if_pos hxor] at h
      split at h
      · cases h
        simp [hkeyword]
      · cases h
    · have hkeyword : isKeyword name = false :=
        Bool.or_eq_false_iff.mpr ⟨Bool.not_eq_true _ ▸ hif, Bool.not_eq_true _ ▸ hxor⟩
      rw [if_neg hxor] at h
      cases h
      simp [hkeyword]

end Expr

/-! ## What operators contribute -/

namespace Operator

/-- The names that a node contributes: what a name in the text stands for, or its own. -/
def names (lifted : Lifted) : Operator → Multiset Name
  | readName chars =>
    match lifted.expand chars with
    | .ok e => e.written
    | .error _ => 0
  | function chars => if Expr.isKeyword chars then 0 else {.call (String.ofList chars)}
  | _ => 0

/-- Whether an expression may have a node of the operator in its tree. -/
def isRead : Operator → Bool
  | quoted _ | writeName _ | assign _ => false
  | _ => true

end Operator

/-- All operators are read, and the expressions have their names and no others. -/
structure Accounts (lifted : Lifted) (ops : Multiset Operator) (es : List (Expr Float)) :
    Prop where
  isRead : ∀ op ∈ ops, op.isRead = true
  written : Expr.writtenEach es = ops.bind (Operator.names lifted)

namespace Accounts

variable {lifted : Lifted} {ops ops' : Multiset Operator} {es es' : List (Expr Float)}

theorem nil : Accounts lifted 0 [] := ⟨by simp, by simp⟩

theorem append (h : Accounts lifted ops es) (h' : Accounts lifted ops' es') :
    Accounts lifted (ops + ops') (es ++ es') where
  isRead op hop := (Multiset.mem_add.mp hop).elim (h.isRead op) (h'.isRead op)
  written := by rw [Expr.writtenEach_append, h.written, h'.written, Multiset.add_bind]

/-- Expressions with the same names account for the same operators. -/
theorem congr (h : Accounts lifted ops es) (hes : Expr.writtenEach es' = Expr.writtenEach es) :
    Accounts lifted ops es' :=
  ⟨h.isRead, hes.trans h.written⟩

/-- One more operator, with its names. -/
theorem own {op : Operator} (h : Accounts lifted ops es) (hop : op.isRead = true)
    (hes : Expr.writtenEach es' = op.own.bind (Operator.names lifted) + Expr.writtenEach es) :
    Accounts lifted (op.own + ops) es' where
  isRead op' hop' := by
    rcases Multiset.mem_add.mp hop' with hown | hops
    · unfold Operator.own at hown
      split at hown
      · simp at hown
      · rwa [Multiset.mem_singleton.mp hown]
    · exact h.isRead op' hops
  written := by rw [hes, h.written, Multiset.add_bind]

end Accounts

/-! ## Readings -/

namespace Reading

/-- The reading accounts for the operators wherever it is an expression. -/
structure Covers (lifted : Lifted) (ops : Multiset Operator) (r : Reading) : Prop where
  signed : ∀ n e, r.signed n = .ok e → Accounts lifted ops [e]
  factors : ∀ es, r.factors = .ok es → Accounts lifted ops es
  arguments : ∀ es, r.arguments = .ok es → Accounts lifted ops es

/-- Several readings account for the operators together. -/
inductive CoversEach (lifted : Lifted) : Multiset Operator → List Reading → Prop
  | nil : CoversEach lifted 0 []
  | cons {ops rest : Multiset Operator} {r : Reading} {rs : List Reading} :
    Covers lifted ops r → CoversEach lifted rest rs → CoversEach lifted (ops + rest) (r :: rs)

variable {lifted : Lifted} {ops : Multiset Operator} {r : Reading} {rs : List Reading}

namespace Covers

theorem plain (h : Covers lifted ops r) {e : Expr Float} (he : r.plain = .ok e) :
    Accounts lifted ops [e] :=
  h.signed 0 e he

/-- An operator without names on top. -/
theorem own (h : Covers lifted ops r) {op : Operator} (hop : op.isRead = true)
    (hnames : op.names lifted = 0) : Covers lifted (op.own + ops) r := by
  have hown : op.own.bind (Operator.names lifted) = 0 := by
    unfold Operator.own
    split <;> simp [hnames]
  exact ⟨fun n e he => (h.signed n e he).own hop (by simp [hown]),
    fun es he => (h.factors es he).own hop (by simp [hown]),
    fun es he => (h.arguments es he).own hop (by simp [hown])⟩

theorem ofExpr {x : Except ReadError (Expr Float)}
    (h : ∀ e, x = .ok e → Accounts lifted ops [e]) : Covers lifted ops (Reading.ofExpr x) := by
  constructor
  · intro n e he
    obtain ⟨e, hx, rfl⟩ := map_eq_ok he
    exact (h e hx).congr (by simp)
  · intro es he
    obtain ⟨e, hx, rfl⟩ := map_eq_ok he
    exact h e hx
  · intro es he
    obtain ⟨e, hx, rfl⟩ := map_eq_ok he
    exact h e hx

theorem ofError (e : ReadError) : Covers lifted ops (Reading.ofError e) := by
  refine .ofExpr fun _ he => ?_
  cases he

end Covers

theorem CoversEach.plainEach (h : CoversEach lifted ops rs) {es : List (Expr Float)}
    (hes : Reading.plainEach rs = .ok es) : Accounts lifted ops es := by
  induction h generalizing es with
  | nil =>
    cases hes
    exact .nil
  | cons hr _ ih =>
    obtain ⟨before, hbefore, hes⟩ := bind_eq_ok.mp hes
    obtain ⟨last, hlast, hes⟩ := bind_eq_ok.mp hes
    cases hes
    rw [add_comm]
    exact (ih hbefore).append (hr.plain hlast)

/-- A row of powers has the factors of its base and the last exponent. -/
theorem CoversEach.powerFactors (h : CoversEach lifted ops rs) {es : List (Expr Float)}
    (hes : Reading.powerFactors rs = .ok es) : Accounts lifted ops es := by
  cases h with
  | nil => cases hes
  | cons hright hrest =>
    cases hrest with
    | nil => cases hes
    | cons hleft hrest =>
      cases hrest with
      | cons => cases hes
      | nil =>
        obtain ⟨before, hbefore, hes⟩ := bind_eq_ok.mp hes
        obtain ⟨last, hlast, hes⟩ := bind_eq_ok.mp hes
        cases hes
        rw [add_zero, add_comm]
        exact (hleft.factors before hbefore).append (hright.plain hlast)

namespace Covers

theorem ofNegation (h : CoversEach lifted ops rs) :
    Covers lifted ops (Reading.ofNegation rs) := by
  cases h with
  | nil => exact .ofError _
  | cons hr hrest =>
    cases hrest with
    | cons => exact .ofError _
    | nil =>
      rw [add_zero]
      refine ⟨fun n => hr.signed (n + 1), ?_, ?_⟩
      · intro es hes
        obtain ⟨e, he, rfl⟩ := map_eq_ok hes
        exact hr.signed 1 e he
      · intro es hes
        obtain ⟨e, he, rfl⟩ := map_eq_ok hes
        exact hr.signed 1 e he

theorem ofPower (h : CoversEach lifted ops rs) : Covers lifted ops (Reading.ofPower rs) := by
  have hsigned : ∀ n e, (Reading.powerFactors rs).bind (Expr.signedPowers n) = .ok e →
      Accounts lifted ops [e] := by
    intro n e he
    obtain ⟨es, hes, he⟩ := bind_eq_ok.mp he
    exact (h.powerFactors hes).congr (by simp [Expr.written_signedPowers he])
  refine ⟨hsigned, fun es hes => h.powerFactors hes, ?_⟩
  intro es hes
  obtain ⟨e, he, rfl⟩ := map_eq_ok hes
  exact hsigned 0 e he

theorem ofGroup (h : CoversEach lifted ops rs) : Covers lifted ops (Reading.ofGroup rs) := by
  cases h with
  | nil =>
    refine ⟨(ofError _).signed, (ofError _).factors, ?_⟩
    intro es hes
    cases hes
    exact .nil
  | cons hr hrest =>
    cases hrest with
    | cons => exact .ofError _
    | nil =>
      rw [add_zero]
      have hplain : Covers lifted _ (Reading.ofExpr _) := .ofExpr fun e he => hr.plain he
      exact ⟨hplain.signed, hplain.factors, hr.arguments⟩

theorem ofSequence (h : CoversEach lifted ops rs) : Covers lifted ops (Reading.ofSequence rs) :=
  ⟨(ofError _).signed, (ofError _).factors, fun _ hes => h.plainEach hes⟩

theorem ofFold (op : BinaryOp) (h : CoversEach lifted ops rs) :
    Covers lifted ops (Reading.ofFold op rs) := by
  unfold Reading.ofFold
  split
  · exact .ofError _
  · refine .ofExpr fun e he => ?_
    obtain ⟨es, hes, he⟩ := bind_eq_ok.mp he
    exact (h.plainEach hes).congr (by simp [Expr.written_foldOperands he])

theorem ofBinary (op : BinaryOp) (h : CoversEach lifted ops rs) :
    Covers lifted ops (Reading.ofBinary op rs) := by
  cases h with
  | nil => exact .ofError _
  | cons hright hrest =>
    cases hrest with
    | nil => exact .ofError _
    | cons hleft hrest =>
      cases hrest with
      | cons => exact .ofError _
      | nil =>
        refine .ofExpr fun e he => ?_
        obtain ⟨left, hl, he⟩ := bind_eq_ok.mp he
        obtain ⟨right, hr, he⟩ := bind_eq_ok.mp he
        cases he
        rw [add_zero, add_comm]
        exact ((hleft.plain hl).append (hright.plain hr)).congr (by simp)

theorem ofNot (h : CoversEach lifted ops rs) : Covers lifted ops (Reading.ofNot rs) := by
  cases h with
  | nil => exact .ofError _
  | cons hr hrest =>
    cases hrest with
    | cons => exact .ofError _
    | nil =>
      refine .ofExpr fun e he => ?_
      obtain ⟨operand, hplain, rfl⟩ := map_eq_ok he
      rw [add_zero]
      exact (hr.plain hplain).congr (by simp)

/-- A call has its name and those of its arguments, of which one child has all. -/
theorem ofFunction (chars : List Char) (hlength : rs.length ≤ 1) (h : CoversEach lifted ops rs) :
    Covers lifted ((Operator.function chars).own + ops) (Reading.ofFunction chars rs) := by
  have hcall : ∀ es e, Accounts lifted ops es → Expr.ofCall chars es = .ok e →
      Accounts lifted ((Operator.function chars).own + ops) [e] := by
    intro es e hes he
    refine hes.own rfl ?_
    have hown : (Operator.function chars).own = {.function chars} := rfl
    simp [Expr.written_ofCall he, hown, Operator.names]
  cases h with
  | nil => exact .ofExpr fun e he => hcall [] e .nil he
  | cons hr hrest =>
    cases hrest with
    | cons => simp at hlength
    | nil =>
      refine .ofExpr fun e he => ?_
      obtain ⟨es, hes, he⟩ := bind_eq_ok.mp he
      exact hcall es e (by simpa using hr.arguments es hes) he

end Covers

/-! ## Trees -/

/-- A leaf has its own names. -/
theorem covers_leaf {op : Operator} {x : Except ReadError (Expr Float)} (hop : op.isRead = true)
    (hleaf : op.isOpen = false) (hx : ∀ e, x = .ok e → e.written = op.names lifted) :
    Covers lifted op.own (Reading.ofExpr x) := by
  refine .ofExpr fun e he => ?_
  rw [← add_zero op.own]
  exact Accounts.nil.own hop (by simp [Operator.own_of_not_isOpen hleaf, hx e he])

/-- **The names of a node are its own and those of its parts.** -/
theorem covers_ofNode {op : Operator} (htakes : op.takes rs.length = true)
    (h : CoversEach lifted ops rs) : Covers lifted (op.own + ops) (ofNode lifted op rs) := by
  have hleaf : op.isOpen = false → op.maxChildren = some 0 → ops = 0 := by
    intro hopen hmax
    have hlength := Operator.le_of_takes htakes hopen hmax
    cases h with
    | nil => rfl
    | cons => simp at hlength
  cases op with
  | root => exact (Covers.ofGroup h).own rfl rfl
  | neg => exact (Covers.ofNegation h).own rfl rfl
  | exp => exact (Covers.ofPower h).own rfl rfl
  | add | mul => exact (Covers.ofFold _ h).own rfl rfl
  | sub | div | mod | eq | ne | gt | lt | ge | le | and | or =>
    exact (Covers.ofBinary _ h).own rfl rfl
  | not => exact (Covers.ofNot h).own rfl rfl
  | tuple => exact (Covers.ofSequence h).own rfl rfl
  | function chars => exact .ofFunction chars (Operator.le_of_takes htakes rfl rfl) h
  | number x =>
    rw [hleaf rfl rfl, add_zero]
    exact covers_leaf rfl rfl fun e he => by cases he; rfl
  | boolean b =>
    rw [hleaf rfl rfl, add_zero]
    exact covers_leaf rfl rfl fun e he => by cases he; rfl
  | readName chars =>
    rw [hleaf rfl rfl, add_zero]
    exact covers_leaf rfl rfl fun e he => by rw [Operator.names, he]
  | quoted | chain | assign | writeName => exact .ofError _

mutual

theorem covers_ofTree (lifted : Lifted) :
    ∀ t : OperatorTree, t.fits = true → Covers lifted t.operators (ofTree lifted t)
  | .node op children, h => by
    rw [OperatorTree.fits, Bool.and_eq_true] at h
    refine covers_ofNode ?_ (coversEach_ofTrees lifted children h.2)
    rw [ofTrees_eq_map, List.length_map]
    exact h.1

theorem coversEach_ofTrees (lifted : Lifted) :
    ∀ ts : List OperatorTree, OperatorTree.fitsEach ts = true →
      CoversEach lifted (OperatorTree.operatorsEach ts) (ofTrees lifted ts)
  | [], _ => .nil
  | t :: rest, h => by
    rw [OperatorTree.fitsEach, Bool.and_eq_true] at h
    exact .cons (covers_ofTree lifted t h.1) (coversEach_ofTrees lifted rest h.2)

end

end Reading

/-- **An expression has the names of its tree**, no more and no less. -/
theorem OperatorTree.accounts_toExpr {lifted : Lifted} {t : OperatorTree} {e : Expr Float}
    (hfits : t.fits = true) (h : t.toExpr lifted = .ok e) : Accounts lifted t.operators [e] :=
  (Reading.covers_ofTree lifted t hfits).plain h

end CircuitExpr
