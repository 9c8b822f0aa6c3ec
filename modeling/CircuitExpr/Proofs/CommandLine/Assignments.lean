import Mathlib
import CircuitExpr.CommandLine.Session
import CircuitExpr.Proofs.Grammar.Displayed
import CircuitExpr.Proofs.Grammar.Hygiene

/-!
# Assignments that are read

The name and the value of an assignment are what stands before and behind the first equals sign,
without the blanks around them. The written form of a variable and the displayed form of a number
have no blanks at their ends, so both are read as they were written.

## Main statements

* `Text.trim_append` — blanks around a text are taken off again
* `Variable.isTrim_text` — variables that are read back have no blanks at their ends
* `readAssignment_display` — which assignments of displayed numbers are read, and as what
-/

namespace CircuitExpr

/-! ## Blanks around a text -/

namespace Text

/-- A text that has no blank at its ends. -/
structure IsTrim (t : List Char) : Prop where
  head : ∀ c ∈ t.head?, isBlank c = false
  last : ∀ c ∈ t.getLast?, isBlank c = false
  ne_nil : t ≠ []

variable {t before after : List Char}

theorem isTrim_of_forall (h : ∀ c ∈ t, isBlank c = false) (hne : t ≠ []) : IsTrim t :=
  ⟨fun c hc => h c (List.mem_of_mem_head? hc), fun c hc => h c (List.mem_of_mem_getLast? hc), hne⟩

/-- **Blanks around a text are taken off again.** -/
theorem trim_append (h : IsTrim t) (hbefore : ∀ c ∈ before, isBlank c = true)
    (hafter : ∀ c ∈ after, isBlank c = true) : trim (before ++ t ++ after) = t := by
  have hhead : ∀ c ∈ (t ++ after).head?, isBlank c = false := by
    rw [List.head?_append_of_ne_nil _ h.ne_nil]
    exact h.head
  have hlast : ∀ c ∈ t.reverse.head?, isBlank c = false := by
    rw [List.head?_reverse]
    exact h.last
  have hback : ∀ c ∈ after.reverse, isBlank c = true := fun c hc =>
    hafter c (List.mem_reverse.mp hc)
  rw [trim, List.append_assoc, dropWhile_append_of_head hhead,
    List.dropWhile_eq_nil_iff.mpr hbefore, List.nil_append, List.reverse_append,
    dropWhile_append_of_head hlast, List.dropWhile_eq_nil_iff.mpr hback, List.nil_append,
    List.reverse_reverse]

end Text

/-! ## Written forms without blanks at their ends -/

theorem isBlank_of_isOrdinary {c : Char} (h : isOrdinary c = true) : Text.isBlank c = false := by
  rw [isOrdinary, Bool.and_eq_true, Bool.and_eq_true, Bool.not_eq_true'] at h
  simpa using h.1.2

namespace Mark

/-- No name has a blank in it. -/
theorem not_blank_of_mem_text {marks : List Mark}
    (h : ∀ c, char c ∈ marks → Text.isBlank c = false) :
    ∀ c ∈ text 0 0 marks, Text.isBlank c = false := by
  intro c hc
  obtain ⟨m, hm, hc⟩ := List.mem_flatMap.mp hc
  by_cases hchar : ∃ d, m = char d
  · obtain ⟨d, rfl⟩ := hchar
    obtain rfl : c = d := List.mem_singleton.mp hc
    exact h c hm
  · exact isBlank_of_isOrdinary (isOrdinary_of_mem_render (fun d hd => hchar ⟨d, hd⟩) hc)

end Mark

/-- The names of an expression that has been read have no blanks in them. -/
theorem Expr.not_blank_of_mem_written {s : String} {e : Expr Float} (h : Expr.parse s = .ok e)
    {name : Name} (hname : name ∈ e.written) :
    ∀ c ∈ name.text.toList, Text.isBlank c = false := by
  obtain ⟨segments, hsegments, hwritten⟩ := Expr.written_parse h
  rw [hwritten] at hname
  obtain ⟨run, hrun, hname⟩ := Multiset.mem_bind.mp hname
  rw [Mark.Run.text_of_mem_names (Segment.written_references hsegments) hname]
  exact Mark.not_blank_of_mem_text (Mark.Run.isRun hsegments hrun).blank

/-- A reference begins with a letter and ends with a parenthesis. -/
theorem Text.isTrim_reference {c : Char} (hc : isBlank c = false) (inner : List Char) :
    IsTrim (c :: inner ++ [')']) where
  head := by
    rintro _ ⟨⟩
    exact hc
  last := by
    rw [List.getLast?_concat]
    rintro _ ⟨⟩
    decide
  ne_nil := List.cons_ne_nil _ _

/-- **A variable that is read back has no blanks at the ends of its written form.** -/
theorem Variable.isTrim_text {v : Variable} (h : Expr.parse v.text = .ok (.var v)) :
    Text.IsTrim v.text.toList := by
  obtain ⟨name, kind, quantity⟩ := v
  cases kind with
  | voltage =>
    have htext : (Variable.mk name .voltage quantity).text.toList =
        'v' :: (quantity.suffix.toList ++ '(' :: name.toList) ++ [')'] := by
      simp [Variable.text, String.toList_append]
    rw [htext]
    exact Text.isTrim_reference (by decide) _
  | current =>
    have htext : (Variable.mk name .current quantity).text.toList =
        'i' :: (quantity.suffix.toList ++ '(' :: name.toList) ++ [')'] := by
      simp [Variable.text, String.toList_append]
    rw [htext]
    exact Text.isTrim_reference (by decide) _
  | parameter =>
    have hwritten : Name.parameter name ∈
        (Expr.var (Variable.mk name .parameter quantity) : Expr Float).written := by simp
    refine Text.isTrim_of_forall (Expr.not_blank_of_mem_written h hwritten) fun hnil => ?_
    have hempty : (Expr.parse "").isOk = false := by decide +kernel
    have htext : (Variable.mk name .parameter quantity).text = "" :=
      String.toList_eq_nil_iff.mp hnil
    rw [htext] at h
    rw [h] at hempty
    cases hempty

theorem Decimal.isTrim_display {x : Float} (hfinite : x.isFinite = true) :
    Text.IsTrim (Decimal.display x).toList := by
  have hpositional : ∀ cs, IsPositional cs → ∀ c ∈ cs, Text.isBlank c = false := by
    intro cs hcs c hc
    rcases Bool.or_eq_true_iff.mp (hcs.mantissa c hc) with hdigit | hpoint
    · exact isBlank_of_isOrdinary (isOrdinary_of_isDigit hdigit)
    · rw [beq_iff_eq.mp hpoint]
      decide
  cases hsign : Binary64.signBit x with
  | false =>
    have h := display_spec hfinite hsign
    obtain ⟨c, rest, hcs, -⟩ := h.head
    exact Text.isTrim_of_forall (hpositional _ h) (hcs ▸ List.cons_ne_nil _ _)
  | true =>
    obtain ⟨htext, hunsigned⟩ := display_of_signBit hfinite hsign
    have h := display_spec ((Binary64.isFinite_neg x).trans hfinite) hunsigned
    rw [htext]
    refine Text.isTrim_of_forall (List.forall_mem_cons.mpr ⟨?_, hpositional _ h⟩)
      (List.cons_ne_nil _ _)
    decide

namespace CommandLine

open Binary64 (signBit)

/-! ## Both sides of the equals sign -/

theorem splitEquals_append {name value : List Char} (h : '=' ∉ name) :
    splitEquals (name ++ '=' :: value) = (String.ofList name, some (String.ofList value)) := by
  have hname : ∀ c ∈ name, (c != '=') = true := by
    intro c hc
    rw [bne_iff_ne]
    rintro rfl
    exact h hc
  rw [splitEquals, List.takeWhile_append_of_pos hname, List.dropWhile_append_of_pos hname]
  simp

theorem readTrimmed_append {t before after : List Char} (h : Text.IsTrim t)
    (hbefore : ∀ c ∈ before, Text.isBlank c = true) (hafter : ∀ c ∈ after, Text.isBlank c = true) :
    readTrimmed (String.ofList (before ++ t ++ after)) =
      (Expr.parse (String.ofList t)).mapError .unreadable := by
  rw [readTrimmed, String.toList_ofList, Text.trim_append h hbefore hafter]

/-! ## Assignments -/

/--
**Which assignments of numbers are read.** A variable that is read back from its written form
without an equals sign gets any displayed number whose sign bit is not set, whatever blanks stand
around the two. What has a minus sign in front is an operator with its operand to the reader, and
no number.
-/
theorem readAssignment_display {v : Variable} {x : Float} {b₁ b₂ b₃ b₄ : List Char}
    (hread : Expr.parse v.text = .ok (.var v)) (hequals : '=' ∉ v.text.toList)
    (hfinite : x.isFinite = true)
    (hblank : ∀ c ∈ b₁ ++ b₂ ++ b₃ ++ b₄, Text.isBlank c = true) :
    readAssignment (String.ofList (b₁ ++ v.text.toList ++ b₂ ++
        '=' :: (b₃ ++ (Decimal.display x).toList ++ b₄))) =
      if signBit x then
        .error (.notNumber (String.ofList (b₃ ++ (Decimal.display x).toList ++ b₄)))
      else .ok (v, x) := by
  simp only [List.forall_mem_append] at hblank
  obtain ⟨⟨⟨h₁, h₂⟩, h₃⟩, h₄⟩ := hblank
  have hname : '=' ∉ b₁ ++ v.text.toList ++ b₂ := by
    have hblanks : ∀ b : List Char, (∀ c ∈ b, Text.isBlank c = true) → '=' ∉ b := fun b hb hmem =>
      absurd (hb '=' hmem) (by decide)
    simp only [List.mem_append, not_or]
    exact ⟨⟨hblanks _ h₁, hequals⟩, hblanks _ h₂⟩
  have hvariable : readVariable (String.ofList (b₁ ++ v.text.toList ++ b₂)) = .ok v := by
    rw [readVariable, readTrimmed_append (Variable.isTrim_text hread) h₁ h₂, String.ofList_toList,
      hread]
    rfl
  have hnumber := readTrimmed_append (Decimal.isTrim_display hfinite) h₃ h₄
  rw [String.ofList_toList] at hnumber
  simp only [readAssignment, String.toList_ofList, splitEquals_append hname, hvariable]
  cases hsign : signBit x with
  | false =>
    rw [Expr.parse_display hfinite hsign] at hnumber
    rw [if_neg Bool.false_ne_true]
    show (readNumber _).bind _ = _
    rw [readNumber, hnumber]
    rfl
  | true =>
    rw [Expr.parse_display_signed hfinite hsign] at hnumber
    rw [if_pos rfl]
    show (readNumber _).bind _ = _
    rw [readNumber, hnumber]
    rfl

theorem ofText_decibels : Segment.ofText "vdb(out)".toList =
    .ok [.reference "vdb(out)".toList (.var ⟨"out", .voltage, .decibels⟩)] := by
  have hnext : Segment.next 'v' "db(out)".toList =
      .ok (.reference "vdb(out)".toList (.var ⟨"out", .voltage, .decibels⟩), []) := rfl
  refine (Segment.ofText_cons hnext).trans ?_
  rw [Segment.ofText]
  rfl

/-- A level in decibels is set to two and a half, with blanks around both. -/
theorem readAssignment_decibels :
    Expr.parse "vdb(out)" = .ok (.var ⟨"out", .voltage, .decibels⟩) ∧
      readAssignment " vdb(out) = 2.5\t" = .ok (⟨"out", .voltage, .decibels⟩, 2.5) := by
  have hread : Expr.parse (Variable.mk "out" .voltage .decibels).text =
      .ok (.var ⟨"out", .voltage, .decibels⟩) := (Operand.ofReference ofText_decibels).parse_eq
  have hfinite : (2.5 : Float).isFinite = true := rfl
  have hblank : ∀ c ∈ [' '] ++ [' '] ++ [' '] ++ ['\t'], Text.isBlank c = true :=
    List.all_eq_true.mp (by decide)
  have hassignment : readAssignment (String.ofList
      ([' '] ++ (Variable.mk "out" .voltage .decibels).text.toList ++ [' '] ++
        '=' :: ([' '] ++ (Decimal.display 2.5).toList ++ ['\t']))) = _ :=
    readAssignment_display hread (by decide) hfinite hblank
  have htext : String.ofList
      ([' '] ++ (Variable.mk "out" .voltage .decibels).text.toList ++ [' '] ++
        '=' :: ([' '] ++ (Decimal.display 2.5).toList ++ ['\t'])) = " vdb(out) = 2.5\t" := by
    rfl
  have hsign : signBit 2.5 = false := rfl
  rw [htext, hsign, if_neg Bool.false_ne_true] at hassignment
  exact ⟨hread, hassignment⟩

/-- Minus five is a number that is displayed, but none that is read. -/
theorem readAssignment_minus_five :
    Expr.parse (Variable.parameter "x").text = .ok (.var (.parameter "x")) ∧
      '=' ∉ (Variable.parameter "x").text.toList ∧ (-5 : Float).isFinite = true ∧
        readAssignment ((Variable.parameter "x").text ++ "=" ++ Decimal.display (-5)) ≠
          .ok (.parameter "x", -5) := by
  refine ⟨?_, by decide, rfl, ?_⟩
  · exact (Operand.ofName 'x' [] (by decide) (List.forall_mem_nil _) rfl (by decide)).parse_eq
  · have herror : (readAssignment ((Variable.parameter "x").text ++ "=" ++
        Decimal.display (-5))).isOk = false := by decide +kernel
    intro h
    rw [h] at herror
    cases herror

end CommandLine

end CircuitExpr
