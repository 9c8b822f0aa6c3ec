import Mathlib
import CircuitExpr.Proofs.Behavior.Checks
import CircuitExpr.Proofs.Native.Inventory
import CircuitExpr.Proofs.Program.References

/-!
# Native code refers to the same captures

Lowering gives out slots as assembling does: to a source where a variable is first met, and to a
function in front of the arguments of its first call. So native code and the program of an
expression have the same captures. A load has the slot in itself; a call is given its slot and the
number of its arguments as words, which stand in instructions of their own.

## Main statements

* `Draft.Refers` — what a step captures, and what the lines it appends refer to
* `Expr.lower_refers` — lowering captures what stands in the expression
* `compiled_captures` — all compiled code of an expression has the same captures
-/

namespace CircuitExpr

open List (Forall₂)

/-! ## References in native code -/

namespace NativeInstruction

variable {K : Type}

/-- The slot of the source that is loaded. -/
def loadSlot? : NativeInstruction K → Option Nat
  | load slot => some slot
  | _ => none

/-- Where the slot of the function stands that is called, and the number of its arguments. -/
def callWords? : NativeInstruction K → Option (ValueId × ValueId)
  | callFunction function _ count => some (function, count)
  | _ => none

/-- Neither loads a source nor calls a captured function. -/
def Quiet (i : NativeInstruction K) : Prop := i.loadSlot? = none ∧ i.callWords? = none

theorem Ordinary.quiet {i : NativeInstruction K} (h : i.Ordinary) : i.Quiet := by
  cases i with
  | load | callFunction => cases h
  | _ => exact ⟨rfl, rfl⟩

theorem quiet_of_store {i : NativeInstruction K} (h : i.kind? = some .stackStore) : i.Quiet := by
  cases i with
  | load | callFunction => cases h
  | _ => exact ⟨rfl, rfl⟩

end NativeInstruction

namespace Line

variable {K σ : Type}

/-- The slots that are loaded. -/
def loads (lines : List (Line K)) : List Nat :=
  lines.filterMap fun line => line.instruction.loadSlot?

/-- The words that are given to calls. -/
def callWords (lines : List (Line K)) : List (ValueId × ValueId) :=
  lines.filterMap fun line => line.instruction.callWords?

/-- The words of a call stand in these lines, and are right. -/
def Makes (t : FunctionTable K) (c : Captures) (lines : List (Line K)) (call : String × Nat)
    (words : ValueId × ValueId) : Prop :=
  ∃ site, c.Makes t call site ∧ ⟨words.1, .wordConst site.1⟩ ∈ lines ∧
    ⟨words.2, .wordConst site.2⟩ ∈ lines

theorem Makes.grow {t : FunctionTable K} {c c' : Captures} {lines lines' : List (Line K)}
    {call : String × Nat} {words : ValueId × ValueId} (h : Makes t c lines call words)
    (hfunctions : c.functions <+: c'.functions) (hlines : lines <+: lines') :
    Makes t c' lines' call words := by
  obtain ⟨site, hsite, hslot, hcount⟩ := h
  exact ⟨site, hsite.grow hfunctions, hlines.subset hslot, hlines.subset hcount⟩

end Line

namespace Draft

variable {K σ : Type} {env : Environment K K σ} {d d' d'' : Draft K} {vs vs' : List Variable}
  {cs cs' made made' : List (String × Nat)}

/-- The lines are numbered in their order. -/
def Numbered (d : Draft K) : Prop := d.lines.map Line.id = List.range d.next

/--
From the first draft to the second one these variables and calls were captured, in this order, and
the lines appended load the variables and make the calls.
-/
structure Refers (env : Environment K K σ) (vs : List Variable) (cs made : List (String × Nat))
    (d d' : Draft K) : Prop where
  captured : Expr.Captured env vs cs d.captures d'.captures
  lines : ∃ new, d'.lines = d.lines ++ new ∧
    Forall₂ (d'.captures.Reads env.bindings) vs (Line.loads new) ∧
    Forall₂ (Line.Makes env.functions d'.captures d'.lines) made (Line.callWords new)
  numbered : d.Numbered → d'.Numbered

theorem Refers.trans (h : d.Refers env vs cs made d') (h' : d'.Refers env vs' cs' made' d'') :
    d.Refers env (vs ++ vs') (cs ++ cs') (made ++ made') d'' where
  captured := h.captured.trans h'.captured
  lines := by
    obtain ⟨new, hnew, hloads, hcalls⟩ := h.lines
    obtain ⟨new', hnew', hloads', hcalls'⟩ := h'.lines
    refine ⟨new ++ new', by rw [hnew', hnew, List.append_assoc], ?_, ?_⟩
    · rw [Line.loads, List.filterMap_append]
      exact List.rel_append (hloads.imp fun v slot hread => hread.grow h'.captured.sources_prefix)
        hloads'
    · rw [Line.callWords, List.filterMap_append]
      refine List.rel_append (hcalls.imp fun call words hmakes => ?_) hcalls'
      exact hmakes.grow h'.captured.functions_prefix ⟨new', hnew'.symm⟩
  numbered := h'.numbered ∘ h.numbered

/-- Nothing is captured and no line is appended. -/
theorem refers_of_eq (hlines : d'.lines = d.lines) (hnext : d'.next = d.next)
    (hcaptures : d'.captures = d.captures) : d.Refers env [] [] [] d' where
  captured := hcaptures
  lines := ⟨[], by rw [hlines, List.append_nil], .nil, .nil⟩
  numbered h := by rw [Numbered, hlines, hnext, h]

/-- One line is appended. -/
theorem refers_of_append {i : NativeInstruction K} (hlines : d'.lines = d.lines ++ [⟨d.next, i⟩])
    (hnext : d'.next = d.next + 1) (hcaptured : Expr.Captured env vs cs d.captures d'.captures)
    (hloads : Forall₂ (d'.captures.Reads env.bindings) vs i.loadSlot?.toList)
    (hcalls : Forall₂ (Line.Makes env.functions d'.captures d'.lines) made i.callWords?.toList) :
    d.Refers env vs cs made d' where
  captured := hcaptured
  lines := by
    refine ⟨[⟨d.next, i⟩], hlines, ?_, ?_⟩
    · rw [Line.loads, List.filterMap_cons]
      cases hi : i.loadSlot? <;> simpa [hi] using hloads
    · rw [Line.callWords, List.filterMap_cons]
      cases hi : i.callWords? <;> simpa [hi] using hcalls
  numbered h := by
    rw [Numbered, hlines, hnext, List.map_append, h, List.range_succ]
    rfl

theorem refers_push {i : NativeInstruction K} (h : i.Quiet) (d : Draft K) :
    d.Refers env [] [] [] (d.push i) :=
  refers_of_append (d.lines_push i) rfl rfl (by rw [h.1]; exact .nil) (by rw [h.2]; exact .nil)

theorem refers_close {i : NativeInstruction K} (h : i.Quiet) (d : Draft K) :
    d.Refers env [] [] [] (d.close i) :=
  refers_of_append (d.lines_close i) rfl rfl (by rw [h.1]; exact .nil) (by rw [h.2]; exact .nil)

/-- A source is captured and loaded. -/
theorem refers_load {v : Variable} {source : SourceId} (h : env.bindings.get? v = some source)
    (d : Draft K) :
    let captures := d.captures.withSource source
    d.Refers env [v] [] [] ({ d with captures := captures }.push (.load
      (captures.sourceSlot source))) := by
  intro captures
  refine refers_of_append (lines_push _ _) rfl (Expr.captured_source h d.captures) ?_ .nil
  exact .cons ⟨source, h,
    Captures.getElem?_sourceSlot (Captures.mem_adjoin d.captures.sources source)⟩ .nil

/-- A function is captured. -/
theorem refers_capture {name : String} {count : Nat} {f : FunctionDefinition K}
    (h : env.functions.resolve name count = .ok f) (d : Draft K) :
    d.Refers env [] [(name, count)] [] { d with captures := d.captures.withFunction f.native } where
  captured := Expr.captured_function h d.captures
  lines := ⟨[], (List.append_nil _).symm, .nil, .nil⟩
  numbered h := h

/-- A call of a function in a slot: the slot and the number of arguments are written in front. -/
theorem refers_call {function buffer count : Nat} {call : String × Nat}
    (h : d.captures.Makes env.functions call (function, count)) :
    d.Refers env [] [] [call] ((((d.push (.stackAddress buffer)).push (.wordConst function)).push
      (.wordConst count)).push (.callFunction (d.next + 1) d.next (d.next + 2))) := by
  have hwords : d.Refers env [] [] []
      (((d.push (.stackAddress buffer)).push (.wordConst function)).push (.wordConst count)) :=
    ((refers_push ⟨rfl, rfl⟩ d).trans (refers_push ⟨rfl, rfl⟩ _)).trans (refers_push ⟨rfl, rfl⟩ _)
  refine hwords.trans (refers_of_append (lines_push _ _) rfl rfl .nil (.cons ?_ .nil))
  refine ⟨(function, count), h, ?_, ?_⟩
  · simp [lines, push]
  · simp [lines, push]

end Draft

/-! ## Steps of lowering -/

namespace Lowering

variable {K σ α β : Type} {env : Environment K K σ} {vs vs' : List Variable}
  {cs cs' made made' : List (String × Nat)}

/-- Whenever the step succeeds, this is what it captures and what its lines refer to. -/
def Refers (env : Environment K K σ) (vs : List Variable) (cs made : List (String × Nat))
    (m : Lowering K α) : Prop :=
  ∀ d a d', m.run d = .ok (a, d') → d.Refers env vs cs made d'

theorem Refers.bind {m : Lowering K α} {f : α → Lowering K β} (hm : Refers env vs cs made m)
    (hf : ∀ a, Refers env vs' cs' made' (f a)) :
    Refers env (vs ++ vs') (cs ++ cs') (made ++ made') (m >>= f) := by
  intro d b d'' h
  obtain ⟨a, d', hm', hf'⟩ := run_bind_eq_ok.mp h
  exact (hm d a d' hm').trans (hf a d' b d'' hf')

/-- In front of other steps, one that refers to nothing. -/
theorem Refers.then {m : Lowering K α} {f : α → Lowering K β} (hm : Refers env [] [] [] m)
    (hf : ∀ a, Refers env vs cs made (f a)) : Refers env vs cs made (m >>= f) :=
  hm.bind hf

/-- Behind other steps, one that refers to nothing. -/
theorem Refers.bind_nil {m : Lowering K α} {f : α → Lowering K β} (hm : Refers env vs cs made m)
    (hf : ∀ a, Refers env [] [] [] (f a)) : Refers env vs cs made (m >>= f) := by
  have h := hm.bind hf
  rwa [List.append_nil, List.append_nil, List.append_nil] at h

theorem Refers.modifyGet {f : Draft K → α × Draft K}
    (h : ∀ d : Draft K, d.Refers env vs cs made (f d).2) :
    Refers env vs cs made (MonadState.modifyGet f : Lowering K α) := by
  intro d a d' hrun
  have hd : f d = (a, d') := Except.ok.inj hrun
  have hrefers := h d
  rwa [hd] at hrefers

theorem Refers.pure (a : α) : Refers env [] [] [] (pure a : Lowering K α) :=
  .modifyGet fun _ => Draft.refers_of_eq rfl rfl rfl

theorem Refers.get : Refers env [] [] [] (get : Lowering K (Draft K)) :=
  .modifyGet fun _ => Draft.refers_of_eq rfl rfl rfl

theorem takeSlot_refers : Refers env [] [] [] (takeSlot : Lowering K Nat) :=
  .modifyGet fun _ => Draft.refers_of_eq rfl rfl rfl

theorem Refers.fail (x : ExpressionError) : Refers env vs cs made (Lowering.fail x : Lowering K α) :=
  fun _ _ _ h => nomatch h

theorem emit_refers {i : NativeInstruction K} (h : i.Quiet) : Refers env [] [] [] (emit i) :=
  .modifyGet fun d => Draft.refers_push h d

theorem close_refers {i : NativeInstruction K} (h : i.Quiet) : Refers env [] [] [] (close i) :=
  .modifyGet fun d => Draft.refers_close h d

theorem Emits.refers {P : NativeInstruction K → Prop} (hP : ∀ i, P i → i.Quiet) {m : Lowering K α}
    (h : Emits P m) : Refers env [] [] [] m := by
  induction h with
  | pure a => exact .pure a
  | emit hi => exact emit_refers (hP _ hi)
  | bind _ _ ihm ihf => exact ihm.bind ihf

theorem leave_refers (x : ValueId) (slot : Nat) (merge : BlockId) :
    Refers env [] [] [] (leave x slot merge : Lowering K Unit) :=
  (emit_refers ⟨rfl, rfl⟩).then fun _ => close_refers ⟨rfl, rfl⟩

/-- The call of a function in a slot, with values that are known already. -/
theorem call_refers {function : Nat} {ids : List ValueId} {call : String × Nat} {d d' : Draft K}
    {id : ValueId} (hmakes : d.captures.Makes env.functions call (function, ids.length))
    (h : (Lowering.call function ids).run d = .ok (id, d')) : d.Refers env [] [] [call] d' := by
  obtain ⟨buffer, d₁, hslot, h⟩ := run_bind_eq_ok.mp h
  obtain ⟨_, d₂, hstore, h⟩ := run_bind_eq_ok.mp h
  have htaken : d.Refers env [] [] [] d₁ := takeSlot_refers d buffer d₁ hslot
  have hstored := htaken.trans
    ((storeEach_emits buffer 0 ids).refers (fun _ => NativeInstruction.quiet_of_store) _ _ _ hstore)
  cases h
  exact hstored.trans (Draft.refers_call (hmakes.grow hstored.captured.functions_prefix))

end Lowering

/-! ## Lowering -/

namespace Expr

open Lowering

variable {K σ : Type} [RealFunctions K] {env : Environment K K σ}

theorem lowerEach_refers {es : List (Expr K)}
    (h : ∀ e ∈ es, Refers env e.occurrences e.calls e.callsMade (lower env e)) :
    Refers env (occurrencesAll es) (callsAll es) (callsMadeAll es) (lowerEach env es) := by
  induction es with
  | nil =>
    rw [lowerEach]
    exact .pure []
  | cons e rest ih =>
    obtain ⟨he, hrest⟩ := List.forall_mem_cons.mp h
    rw [lowerEach]
    exact he.bind fun x => (ih hrest).bind_nil fun xs => .pure _

/-- The call of a function that is captured, its arguments and then the call itself. -/
theorem lower_call_refers {name : String} {arguments : List (Expr K)} {d : FunctionDefinition K}
    (hd : env.functions.resolve name arguments.length = .ok d)
    (harguments : Refers env (occurrencesAll arguments) (callsAll arguments)
      (callsMadeAll arguments) (lowerEach env arguments)) :
    Refers env (Expr.call name arguments).occurrences (Expr.call name arguments).calls
      (Expr.call name arguments).callsMade (lower env (.call name arguments)) := by
  intro d₀ id d₃ h
  rw [lower, hd] at h
  obtain ⟨slot, d₁, hcapture, h⟩ := run_bind_eq_ok.mp h
  obtain ⟨ids, d₂, hids, hcall⟩ := run_bind_eq_ok.mp h
  cases hcapture
  have hfirst := Draft.refers_capture hd d₀
  have hsecond := harguments _ _ _ hids
  -- the slot still has the function behind the arguments
  have hslot : d₂.captures.Makes env.functions (name, arguments.length)
      ((d₀.captures.withFunction d.native).functionSlot d.native, ids.length) := by
    refine Captures.Makes.grow ⟨lowerEach_length hids, d, hd, ?_⟩
      hsecond.captured.functions_prefix
    exact Captures.getElem?_functionSlot (Captures.mem_adjoin d₀.captures.functions d.native)
  have hall := (hfirst.trans hsecond).trans (call_refers hslot hcall)
  rwa [List.append_nil, List.append_nil] at hall

/-- **Lowering captures what stands in the expression**, in the order in which it stands there. -/
theorem lower_refers (env : Environment K K σ) (e : Expr K) :
    Refers env e.occurrences e.calls e.callsMade (lower env e) := by
  induction e using Expr.induction with
  | const value =>
    rw [lower]
    exact emit_refers ⟨rfl, rfl⟩
  | var v =>
    rw [lower]
    cases hget : env.bindings.get? v with
    | none => exact .fail _
    | some source =>
      intro d id d' h
      cases h
      exact Draft.refers_load hget d
  | unary op operand ih =>
    rw [lower]
    exact ih.bind_nil fun x => (unary_emits op x).refers fun _ => NativeInstruction.Ordinary.quiet
  | binary op left right ihl ihr =>
    rw [lower]
    exact ihl.bind fun x => ihr.bind_nil fun y =>
      (binary_emits env.tolerances op x y).refers fun _ => NativeInstruction.Ordinary.quiet
  | cond condition whenTrue whenFalse ihc iht ihf =>
    rw [lower, occurrences, calls, callsMade, List.append_assoc, List.append_assoc,
      List.append_assoc]
    refine ihc.bind fun x => ((truth_emits x).refers fun _ => NativeInstruction.Ordinary.quiet).then
      fun flag => takeSlot_refers.then fun slot => Refers.get.then fun d => ?_
    refine (close_refers ⟨rfl, rfl⟩).then fun _ => iht.bind fun y => ?_
    refine (leave_refers y slot _).then fun _ => ihf.bind_nil fun z => ?_
    exact (leave_refers z slot _).then fun _ => emit_refers ⟨rfl, rfl⟩
  | call name arguments ih =>
    cases hd : env.functions.resolve name arguments.length with
    | error x =>
      rw [lower, hd]
      exact .fail x
    | ok d => exact lower_call_refers hd (lowerEach_refers ih)
  | ext name arguments ih =>
    rw [lower]
    exact .fail _

end Expr

/-! ## Finished code -/

namespace NativeCode

variable {K : Type}

/-- The word under a number. -/
def word? (c : NativeCode K) (id : ValueId) : Option Nat :=
  c.lines.findSome? fun line =>
    match line.instruction with
    | .wordConst n => if line.id = id then some n else none
    | _ => none

/-- The slots of the sources that are loaded, in the order of the code. -/
def loads (c : NativeCode K) : List Nat := Line.loads c.lines

/-- The slots of the functions that are called, with the numbers of arguments. -/
def calls (c : NativeCode K) : List (Option Nat × Option Nat) :=
  (Line.callWords c.lines).map fun words => (c.word? words.1, c.word? words.2)

/-- A word is found under its number if no number is used twice. -/
theorem word?_of_mem {c : NativeCode K} (hnodup : (c.lines.map Line.id).Nodup) {id : ValueId}
    {n : Nat} (h : ⟨id, .wordConst n⟩ ∈ c.lines) : c.word? id = some n := by
  cases hword : c.word? id with
  | none =>
    have hnone := List.findSome?_eq_none_iff.mp hword _ h
    simp at hnone
  | some m =>
    obtain ⟨⟨id', i⟩, hmem, hi⟩ := List.exists_of_findSome?_eq_some hword
    cases i with
    | wordConst k =>
      obtain ⟨hid, rfl⟩ : id' = id ∧ k = m := by simpa using hi
      have hline := List.inj_on_of_nodup_map hnodup hmem h hid
      cases hline
      rfl
    | _ => exact nomatch hi

/-- What calls are given by words are slots and numbers of arguments. -/
theorem exists_sites {t : FunctionTable K} {c : NativeCode K}
    (hnodup : (c.lines.map Line.id).Nodup) {made : List (String × Nat)}
    {words : List (ValueId × ValueId)}
    (h : Forall₂ (Line.Makes t c.captures c.lines) made words) :
    ∃ sites, Forall₂ (c.captures.Makes t) made sites ∧
      words.map (fun words => (c.word? words.1, c.word? words.2)) =
        sites.map fun site => (some site.1, some site.2) := by
  induction h with
  | nil => exact ⟨[], .nil, rfl⟩
  | cons hcall _ ih =>
    obtain ⟨site, hsite, hslot, hcount⟩ := hcall
    obtain ⟨sites, hsites, hwords⟩ := ih
    refine ⟨site :: sites, .cons hsite hsites, ?_⟩
    rw [List.map_cons, List.map_cons, hwords, word?_of_mem hnodup hslot,
      word?_of_mem hnodup hcount]

variable {σ : Type} [RealFunctions K] {env : Environment K K σ} {e : Expr K} {c : NativeCode K}

/-- Lowered code refers to the captures of the expression. -/
theorem serves_of_lower (h : lower env e = .ok c) :
    ∃ made, c.calls = made.map (fun site => (some site.1, some site.2)) ∧
      c.captures.Serves env.bindings env.functions e c.loads made := by
  obtain ⟨⟨id, d⟩, hlower, hfinish⟩ := bind_eq_ok.mp h
  cases hfinish
  have hrefers := (Expr.lower_refers env e _ _ _ hlower).trans
    (Draft.refers_close ⟨rfl, rfl⟩ d : d.Refers env [] [] [] (d.close (.ret id)))
  simp only [List.append_nil] at hrefers
  have hlines : (d.close (.ret id)).lines = lines ⟨(d.close (.ret id)).closed, d.captures⟩ :=
    List.append_nil _
  obtain ⟨new, hnew, hloads, hcalls⟩ := hrefers.lines
  obtain rfl : (d.close (.ret id)).lines = new := hnew
  rw [hlines] at hloads hcalls
  have hnodup : ((lines ⟨(d.close (.ret id)).closed, d.captures⟩).map Line.id).Nodup := by
    rw [← hlines, hrefers.numbered rfl]
    exact List.nodup_range
  obtain ⟨made, hmade, hsites⟩ := exists_sites (t := env.functions) hnodup hcalls
  exact ⟨made, hsites, Captures.serves_of_adding hrefers.captured hloads hmade⟩

/-- An expression that is compiled to native code is compiled to a program as well. -/
theorem exists_program_of_compile (h : compile env e = .ok c) :
    ∃ p, Program.compile env e = .ok p := by
  have hverdict := (NativeCode.verdict_compile env e).trans (Program.verdict_compile env e).symm
  rw [h] at hverdict
  cases hp : Program.compile env e with
  | ok p => exact ⟨p, rfl⟩
  | error x =>
    rw [hp] at hverdict
    exact nomatch hverdict

end NativeCode

/-- Native code has the captures of a program, and refers to the same slots in the same order. -/
structure NativeCode.RefersAs {K D σ : Type} (c : NativeCode K) (p : Program K D σ) : Prop where
  captures : c.captures = p.captures
  loads : c.loads = p.loads
  calls : c.calls = p.calls.map fun site => (some site.1, some site.2)

/--
**Compiled code of an expression has the same captures in each form.** They are the sources and
functions of the optimized expression in the order in which they are first met, each once, and
every load and call refers to the slot of what its name stands for. Lowering and assembling capture
the same from any expression on.
-/
theorem compiled_captures {K : Type} [RealFunctions K] (e : Expr K) :
    (∀ {D σ : Type} [Scalar D K] (env : Environment K D σ) (p : Program K D σ),
      Program.compile env e = .ok p →
      p.captures.Serves env.bindings env.functions (e.optimize D env.tolerances) p.loads p.calls) ∧
    (∀ {σ : Type} (env : Environment K K σ) (c : NativeCode K), NativeCode.compile env e = .ok c →
      ∃ p, Program.compile env e = .ok p ∧ c.RefersAs p) ∧
    ∀ {σ : Type} (env : Environment K K σ) (id : ValueId) (d d' : Draft K) (a a' : Assembly K),
      (e.lower env).run d = .ok (id, d') → e.emit env a = .ok a' → d.captures = a.captures →
      d'.captures = a'.captures := by
  refine ⟨fun env p hp => Program.compiled_serves hp, fun env c hc => ?_, ?_⟩
  · obtain ⟨p, hp⟩ := NativeCode.exists_program_of_compile hc
    obtain ⟨made, hmade, hserves⟩ := NativeCode.serves_of_lower (NativeCode.compile_eq_ok.mp hc).2
    obtain ⟨hcaptures, hloads, rfl⟩ := hserves.unique (Program.compiled_serves hp)
    exact ⟨p, hp, hcaptures, hloads, hmade⟩
  · intro σ env id d d' a a' hlower hemit hstart
    rw [(Expr.lower_refers env e _ _ _ hlower).captured, Expr.emit_captured hemit, hstart]

/-! ## Other names for the same -/

/-- Variables `x` and `y` are bound to one source, and `f` and `g` are one function of a host. -/
def Environment.renaming : Environment Float Float Unit where
  bindings := (((Bindings.empty .caseInsensitive).bind (.voltage "x") 4).bind (.voltage "y") 4).bind
    (.voltage "z") 7
  functions := ((FunctionTable.empty.register "f" ⟨.exactly 1, .host 0, none⟩).register "g"
    ⟨.exactly 1, .host 0, none⟩).register "h" ⟨.exactly 1, .host 1, none⟩
  tolerances := .default
  natives := Native.call fun _ arguments => pure (arguments.headD 0)
  extension := none

/-- The expression `f(x) + G(h(Y)) * z`. -/
def Expr.renamed : Expr Float :=
  .binary .add (.call "f" [.var (.voltage "x")])
    (.binary .mul (.call "G" [.call "h" [.var (.voltage "Y")]]) (.var (.voltage "z")))

theorem compiled_captures_renamed :
    ∃ c p, NativeCode.compile .renaming .renamed = .ok c ∧
      Program.compile .renaming .renamed = .ok p ∧ c.RefersAs p ∧
      p.captures.sources = [4, 7] ∧ p.captures.functions = [.host 0, .host 1] ∧
      p.loads = [0, 0, 1] ∧ p.calls = [(0, 1), (1, 1), (0, 1)] := by
  have hplain : Expr.renamed.Plain := .binary .add
    (.call "f" (List.forall_mem_singleton.mpr (.var _)))
    (.binary .mul (.call "G" (List.forall_mem_singleton.mpr
      (.call "h" (List.forall_mem_singleton.mpr (.var _))))) (.var _))
  have hchecked : Expr.renamed.validate Environment.renaming = .ok () := by decide +kernel
  obtain ⟨c, hc⟩ :=
    NativeCode.exists_compile_of_valid ((Expr.validate_eq_ok_iff hplain).mp hchecked)
  obtain ⟨p, hp, hrefers⟩ := (compiled_captures Expr.renamed).2.1 .renaming c hc
  have hserves := (compiled_captures Expr.renamed).1 Environment.renaming p hp
  have hslots : (Program.compile Environment.renaming Expr.renamed).toOption.map
      (fun p => (p.loads, p.calls)) = some ([0, 0, 1], [(0, 1), (1, 1), (0, 1)]) := by
    decide +kernel
  rw [hp] at hslots
  obtain ⟨hloads, hcalls⟩ := Prod.mk.inj (Option.some.inj hslots)
  exact ⟨c, p, hc, hp, hrefers, hserves.sources.trans (by decide +kernel),
    hserves.functions.trans (by decide +kernel), hloads, hcalls⟩

end CircuitExpr
