import Mathlib
import CircuitExpr.Proofs.Grammar.Spacing

/-!
# Placeholders stay inside

Numbers and references are replaced by names that a text may have as well, and that stand next to
whatever stood next to them. So they can get into an expression as names of parameters and
functions, and names of the text can be taken for them. It is said exactly which texts are free of
that: those all of whose runs are tidy, that is a number or a reference by itself that is not
called, or a name spelled out in the text that does not look like what numbers and references are
replaced by.

## Main statements

* `Hygienic` — no name of the expression is made up, and no name of the text is lost
* `IsTidy` — runs that are read as they stand
* `Expr.hygienic_iff` — **an expression is hygienic if and only if all runs of its text are tidy**
-/

namespace CircuitExpr

open Lifted

/-! ## What names and placeholders contribute -/

/-- The expressions of references have no names. -/
theorem Segment.written_referenceExpr {kind : VariableKind} {quantity : Quantity}
    {arguments : List Char} {e : Expr Float} (hkind : kind ≠ .parameter)
    (h : referenceExpr kind quantity arguments = .ok e) : e.written = 0 := by
  simp only [referenceExpr] at h
  split at h
  · split at h
    · cases h
    · cases h
      simp
  · split at h
    · cases h
    · cases h
      simp [hkind]
  · cases h

theorem Segment.written_references {s : List Char} {segments : List Segment}
    (h : ofText s = .ok segments) : ∀ e ∈ segments.filterMap reference?, e.written = 0 := by
  induction hn : s.length using Nat.strong_induction_on generalizing s segments with
  | _ n ih =>
    cases s with
    | nil =>
      rw [ofText] at h
      cases h
      exact List.forall_mem_nil _
    | cons c rest =>
      obtain ⟨segment, after, more, hnext, hmore, rfl⟩ := ofText_cons_eq_ok h
      have hrest := ih _ (hn ▸ next_length hnext) hmore rfl
      rcases next_cases hnext with ⟨word, rfl, -⟩ | ⟨chars, x, rfl⟩ |
        ⟨chars, kind, quantity, arguments, e, rfl, hkind, he⟩ | ⟨rfl, -⟩
      · exact hrest
      · exact hrest
      · exact List.forall_mem_cons.mpr ⟨written_referenceExpr hkind he, hrest⟩
      · exact hrest

/-- What a placeholder stands for has no names. -/
theorem Lifted.written_expand {lifted : Lifted} {name : List Char} {e : Expr Float}
    (hreferences : ∀ e ∈ lifted.references, e.written = 0) (hname : isPlaceholder name = true)
    (h : lifted.expand name = .ok e) : e.written = 0 := by
  unfold expand at h
  split at h
  · split at h
    · cases h
      rfl
    · cases h
  · next hliteral =>
    split at h
    · split at h
      · next hentry =>
        cases h
        exact hreferences e (List.mem_of_getElem? hentry)
      · cases h
    · next hreference =>
      rw [isPlaceholder, hliteral, hreference] at hname
      cases hname

namespace Operator

variable {lifted : Lifted} {name : List Char}

theorem names_of_isPlaceholder (hreferences : ∀ e ∈ lifted.references, e.written = 0)
    (h : isPlaceholder name = true) : (readName name).names lifted = 0 := by
  rw [names]
  split
  · next he => exact written_expand hreferences h he
  · rfl

theorem names_of_not_placeholder (lifted : Lifted) (h : isPlaceholder name = false) :
    (readName name).names lifted = {.parameter (String.ofList name)} := by
  rw [names, expand_of_not_placeholder lifted h]
  rfl

end Operator

theorem Token.chars_of_ofRun {chars name : List Char} (h : ofRun chars = .name name) :
    name = chars := by
  rcases ofRun_cases chars with ⟨x, hx⟩ | ⟨b, hb⟩ | hchars
  · rw [hx] at h
    cases h
  · rw [hb] at h
    cases h
  · rw [hchars] at h
    cases h
    rfl

/-- Words for truth values and numbers are no names. -/
theorem Token.ofRun_of_isLiteralWord {chars : List Char} (h : isLiteralWord chars = true)
    (name : List Char) : ofRun chars ≠ .name name := by
  intro hchars
  rw [ofRun] at hchars
  split at hchars
  · cases hchars
  · next hread =>
    split at hchars
    · cases hchars
    · next htrue =>
      split at hchars
      · cases hchars
      · next hfalse =>
        simp only [isLiteralWord, htrue, hfalse, Bool.false_or] at h
        exact Decimal.read?_word (List.contains_iff_mem.mp h) hread

/-! ## Hygiene -/

section Text

variable (s : String)

/-- The segments of a text, if it can be cut into segments. -/
def segmentsOf : List Segment :=
  match Segment.ofText s.toList with
  | .ok segments => segments
  | .error _ => []

/-- The runs of a text. -/
def runsOf : List Mark.Run := Mark.Run.ofSegments (segmentsOf s)

/-- The names that are made up for the numbers and references of a text. -/
def placeholdersOf : List (List Char) :=
  (List.range (literalCount (segmentsOf s))).map (placeholder literalStem) ++
    (List.range (referenceCount (segmentsOf s))).map (placeholder referenceStem)

/-- Whether a run is an identifier that is an operand: written without numbers and references, not
called, and no word for a truth value or a number. -/
def Mark.Run.isIdentifier (run : Mark.Run) : Bool :=
  !run.called && run.marks.all Mark.isChar && !Token.isLiteralWord run.text

/-- The parameters that the identifiers of a text ask for, each as often as it is written. -/
def identifiersOf : List Name :=
  ((runsOf s).filter Mark.Run.isIdentifier).map fun run => Name.parameter (String.ofList run.text)

/-- The names of the expression are those of the text. -/
structure Hygienic (e : Expr Float) : Prop where
  /-- The names of parameters and calls stand in the text. -/
  verbatim : ∀ name ∈ e.written, name.text.toList <:+: s.toList
  /-- No name contains one that is made up. -/
  fresh : ∀ name ∈ e.written, ∀ p ∈ placeholdersOf s, ¬ p <:+: name.text.toList
  /-- Every identifier is a parameter wherever it is written. -/
  parameters : (identifiersOf s : Multiset Name) ≤ e.written

/-- A number or a reference by itself that is not called, among those whose index is read back. -/
def Mark.Run.isValue : Mark.Run → Bool
  | ⟨[.literal index], false⟩ | ⟨[.reference index], false⟩ => index ≤ maxIndex
  | _ => false

/-- The runs that are read as they stand. -/
inductive IsTidy (run : Mark.Run) : Prop
  | value : run.isValue = true → IsTidy run
  /-- A truth value, an infinity or an undefined number. -/
  | word : Token.isLiteralWord run.text = true → IsTidy run
  /-- What is written like a call, but is none. -/
  | keyword : run.called = true → Expr.isKeyword run.text = true → IsTidy run
  /-- A name that stands in the text, in which nothing made up is to be found, and which does not
  look like a placeholder where it is not called. -/
  | name : run.text <:+: s.toList → (∀ p ∈ placeholdersOf s, ¬ p <:+: run.text) →
    (run.called = false → isPlaceholder run.text = false) → IsTidy run

variable {s}

theorem isTidy_iff {run : Mark.Run} :
    IsTidy s run ↔ run.isValue = true ∨ Token.isLiteralWord run.text = true ∨
      (run.called = true ∧ Expr.isKeyword run.text = true) ∨
        run.text <:+: s.toList ∧ (∀ p ∈ placeholdersOf s, ¬ p <:+: run.text) ∧
          (run.called = false → isPlaceholder run.text = false) := by
  constructor
  · rintro (hvalue | hword | ⟨hcalled, hkeyword⟩ | ⟨hspelled, hfresh, huncalled⟩)
    · exact .inl hvalue
    · exact .inr (.inl hword)
    · exact .inr (.inr (.inl ⟨hcalled, hkeyword⟩))
    · exact .inr (.inr (.inr ⟨hspelled, hfresh, huncalled⟩))
  · rintro (hvalue | hword | ⟨hcalled, hkeyword⟩ | ⟨hspelled, hfresh, huncalled⟩)
    · exact .value hvalue
    · exact .word hword
    · exact .keyword hcalled hkeyword
    · exact .name hspelled hfresh huncalled

instance (run : Mark.Run) : Decidable (IsTidy s run) := decidable_of_iff _ isTidy_iff.symm

end Text

/-! ## Runs that are tidy -/

/-- The numbers and references in the marks of a text are counted. -/
theorem Mark.index_lt {segments : List Segment} {l r : Nat} {m : Mark}
    (h : m ∈ ofSegments l r segments) :
    (∀ index, m = .literal index → index < l + literalCount segments) ∧
      ∀ index, m = .reference index → index < r + referenceCount segments := by
  induction segments generalizing l r with
  | nil => cases h
  | cons segment rest ih =>
    cases segment with
    | word chars =>
      rcases List.mem_append.mp h with hchar | hrest
      · obtain ⟨c, -, rfl⟩ := List.mem_map.mp hchar
        exact ⟨fun _ h => (by cases h), fun _ h => (by cases h)⟩
      · exact ih hrest
    | char c =>
      rcases List.mem_cons.mp h with rfl | hrest
      · exact ⟨fun _ h => (by cases h), fun _ h => (by cases h)⟩
      · exact ih hrest
    | literal chars x =>
      have hcount : literalCount (.literal chars x :: rest) = literalCount rest + 1 := rfl
      rcases List.mem_cons.mp h with rfl | hrest
      · refine ⟨?_, fun _ h => (by cases h)⟩
        rintro _ ⟨⟩
        omega
      · obtain ⟨hliteral, hreference⟩ := ih hrest
        refine ⟨fun index hm => ?_, hreference⟩
        have := hliteral index hm
        omega
    | reference chars e =>
      have hcount : referenceCount (.reference chars e :: rest) = referenceCount rest + 1 := rfl
      rcases List.mem_cons.mp h with rfl | hrest
      · refine ⟨fun _ h => (by cases h), ?_⟩
        rintro _ ⟨⟩
        omega
      · obtain ⟨hliteral, hreference⟩ := ih hrest
        refine ⟨hliteral, fun index hm => ?_⟩
        have := hreference index hm
        omega

/-- What some members contribute is found in what all of them contribute together. -/
theorem map_filter_le_bind {α β : Type} {p : α → Bool} {f : α → β} {g : α → Multiset β}
    {l : List α} (h : ∀ a ∈ l, p a = true → f a ∈ g a) :
    (((l.filter p).map f : List β) : Multiset β) ≤ (l : Multiset α).bind g := by
  induction l with
  | nil => exact le_refl _
  | cons a rest ih =>
    obtain ⟨ha, hrest⟩ := List.forall_mem_cons.mp h
    rw [← Multiset.cons_coe, Multiset.cons_bind, List.filter_cons]
    split
    · next hp =>
      rw [List.map_cons, ← Multiset.cons_coe, ← Multiset.singleton_add]
      exact add_le_add (Multiset.singleton_le.mpr (ha hp)) (ih hrest)
    · exact (ih hrest).trans (Multiset.le_add_left _ _)

section Tidy

variable {s : String} {run : Mark.Run}

theorem isPlaceholder_placeholder {stem : List Char}
    (hstem : stem = literalStem ∨ stem = referenceStem) (n : Nat) :
    isPlaceholder (placeholder stem n) = decide (n ≤ maxIndex) := by
  have hliteral : index? referenceStem (placeholder literalStem n) = none := rfl
  have hreference := literal_index?_reference n
  by_cases hn : n ≤ maxIndex
  · rw [decide_eq_true hn]
    rcases hstem with rfl | rfl
    · rw [isPlaceholder, index?_placeholder hn]
      rfl
    · rw [isPlaceholder, index?_placeholder hn, Option.isSome_some, Bool.or_true]
  · have hlarge := Nat.not_le.mp hn
    rw [decide_eq_false hn]
    rcases hstem with rfl | rfl
    · rw [isPlaceholder, index?_placeholder_of_lt hlarge, hliteral]
      rfl
    · rw [isPlaceholder, index?_placeholder_of_lt hlarge, hreference]
      rfl

/-- A value is a number or a reference by itself that is read as a placeholder. -/
theorem Mark.Run.isValue_iff :
    run.isValue = true ↔ run.called = false ∧
      (∃ m, run.marks = [m] ∧ m.isChar = false) ∧ isPlaceholder run.text = true := by
  have hliteral : ∀ index, isPlaceholder (Mark.text 0 0 [.literal index]) =
      decide (index ≤ maxIndex) := by
    intro index
    rw [← isPlaceholder_placeholder (.inl rfl)]
    simp [Mark.text, render]
  have hreference : ∀ index, isPlaceholder (Mark.text 0 0 [.reference index]) =
      decide (index ≤ maxIndex) := by
    intro index
    rw [← isPlaceholder_placeholder (.inr rfl)]
    simp [Mark.text, render]
  constructor
  · intro h
    unfold isValue at h
    split at h
    · next index => exact ⟨rfl, ⟨_, rfl, rfl⟩, (hliteral index).trans h⟩
    · next index => exact ⟨rfl, ⟨_, rfl, rfl⟩, (hreference index).trans h⟩
    · cases h
  · obtain ⟨marks, called⟩ := run
    rintro ⟨rfl, ⟨m, rfl, hm⟩, hplaceholder⟩
    cases m with
    | char c => cases hm
    | literal index => exact (hliteral index).symm.trans hplaceholder
    | reference index => exact (hreference index).symm.trans hplaceholder

/-- A number or a reference in a run leaves its placeholder there. -/
theorem exists_placeholder_infix (hrun : Mark.IsRun (segmentsOf s) run.marks)
    (hmark : run.marks.all Mark.isChar = false) : ∃ p ∈ placeholdersOf s, p <:+: run.text := by
  obtain ⟨m, hmem, hm⟩ := List.all_eq_false.mp hmark
  obtain ⟨hliteral, hreference⟩ := Mark.index_lt (hrun.mem m hmem)
  refine ⟨Mark.render 0 0 m, ?_, ?_⟩
  · rw [placeholdersOf, List.mem_append, List.mem_map, List.mem_map]
    cases m with
    | char c => exact absurd rfl hm
    | literal index =>
      exact .inl ⟨0 + index, List.mem_range.mpr (by simpa using hliteral index rfl), rfl⟩
    | reference index =>
      exact .inr ⟨0 + index, List.mem_range.mpr (by simpa using hreference index rfl), rfl⟩
  · obtain ⟨before, after, hmarks⟩ := List.append_of_mem hmem
    rw [Mark.Run.text, hmarks, Mark.text_append, Mark.text_cons, ← List.append_assoc]
    exact List.infix_append _ _ _

/-- A run has at most its own name. -/
theorem Mark.Run.text_of_mem_names {lifted : Lifted} {name : Name}
    (hreferences : ∀ e ∈ lifted.references, e.written = 0) (hname : name ∈ run.names lifted) :
    name.text.toList = run.text := by
  rw [names] at hname
  split at hname
  · next chars htoken =>
    cases Token.chars_of_ofRun htoken
    split at hname
    · rw [Operator.names] at hname
      split at hname
      · simp at hname
      · rw [Multiset.mem_singleton.mp hname, Name.text, String.toList_ofList]
    · cases hplaceholder : isPlaceholder run.text with
      | true =>
        rw [Operator.names_of_isPlaceholder hreferences hplaceholder] at hname
        simp at hname
      | false =>
        rw [Operator.names_of_not_placeholder lifted hplaceholder] at hname
        rw [Multiset.mem_singleton.mp hname, Name.text, String.toList_ofList]
  · simp at hname

/-- A tidy run has at most its own name, and this is one that stands in the text. -/
theorem IsTidy.text_of_mem_names {lifted : Lifted} {name : Name}
    (hreferences : ∀ e ∈ lifted.references, e.written = 0) (h : IsTidy s run)
    (hname : name ∈ run.names lifted) :
    name.text.toList <:+: s.toList ∧ ∀ p ∈ placeholdersOf s, ¬ p <:+: name.text.toList := by
  rw [Mark.Run.text_of_mem_names hreferences hname]
  rw [Mark.Run.names] at hname
  split at hname
  · next chars htoken =>
    cases Token.chars_of_ofRun htoken
    cases h with
    | value hvalue =>
      obtain ⟨hcalled, -, hplaceholder⟩ := Mark.Run.isValue_iff.mp hvalue
      rw [if_neg (by simp [hcalled]),
        Operator.names_of_isPlaceholder hreferences hplaceholder] at hname
      simp at hname
    | word hword => exact absurd htoken (Token.ofRun_of_isLiteralWord hword _)
    | keyword hcalled hkeyword =>
      rw [if_pos hcalled, Operator.names, if_pos hkeyword] at hname
      simp at hname
    | name hspelled hfresh _ => exact ⟨hspelled, hfresh⟩
  · simp at hname

/-- A parameter does not look like a placeholder. -/
theorem not_placeholder_of_mem_names {lifted : Lifted} {name : List Char}
    (hreferences : ∀ e ∈ lifted.references, e.written = 0)
    (hname : Name.parameter (String.ofList name) ∈ run.names lifted) :
    isPlaceholder name = false := by
  rw [Mark.Run.names] at hname
  split at hname
  · next chars htoken =>
    split at hname
    · rw [Operator.names] at hname
      split at hname
      · simp at hname
      · cases Multiset.mem_singleton.mp hname
    · cases hplaceholder : isPlaceholder chars with
      | true =>
        rw [Operator.names_of_isPlaceholder hreferences hplaceholder] at hname
        simp at hname
      | false =>
        rw [Operator.names_of_not_placeholder lifted hplaceholder, Multiset.mem_singleton] at hname
        rwa [String.ofList_injective (Name.parameter.inj hname)]
  · simp at hname

theorem Mark.Run.names_eq (lifted : Lifted) (h : Token.ofRun run.text = .name run.text) :
    run.names lifted =
      if run.called then (Operator.function run.text).names lifted
      else (Operator.readName run.text).names lifted := by
  rw [names, h]

/-- A tidy identifier is a parameter. -/
theorem IsTidy.parameter_mem_names (lifted : Lifted) (h : IsTidy s run)
    (hrun : Mark.IsRun (segmentsOf s) run.marks) (hidentifier : run.isIdentifier = true) :
    .parameter (String.ofList run.text) ∈ run.names lifted := by
  simp only [Mark.Run.isIdentifier, Bool.and_eq_true, Bool.not_eq_true'] at hidentifier
  obtain ⟨⟨hcalled, hchars⟩, hword⟩ := hidentifier
  have hplaceholder : isPlaceholder run.text = false := by
    cases h with
    | value hvalue =>
      obtain ⟨-, ⟨m, hm, hchar⟩, -⟩ := Mark.Run.isValue_iff.mp hvalue
      simp [hm, hchar] at hchars
    | word hword' => exact absurd (hword'.symm.trans hword) (by decide)
    | keyword hcalled' => exact absurd (hcalled'.symm.trans hcalled) (by decide)
    | name _ _ huncalled => exact huncalled hcalled
  rw [Mark.Run.names_eq lifted (hrun.ofRun hword), if_neg (by simp [hcalled]),
    Operator.names_of_not_placeholder lifted hplaceholder]
  exact Multiset.mem_singleton_self _

/--
A run of a hygienic expression is tidy: its name would be one of the expression, and would have the
placeholder of each number and reference in the run.
-/
theorem Hygienic.isTidy {lifted : Lifted} {e : Expr Float} (h : Hygienic s e)
    (hrun : run ∈ runsOf s) (hmarks : Mark.IsRun (segmentsOf s) run.marks)
    (hnames : ∀ name ∈ run.names lifted, name ∈ e.written)
    (hparameter : ∀ name, .parameter (String.ofList name) ∈ e.written →
      isPlaceholder name = false) : IsTidy s run := by
  by_cases hword : Token.isLiteralWord run.text = true
  · exact .word hword
  have hword : Token.isLiteralWord run.text = false := Bool.not_eq_true _ ▸ hword
  have hrunNames := Mark.Run.names_eq lifted (hmarks.ofRun hword)
  have hname : ∀ name : Name, name ∈ e.written → name.text = String.ofList run.text →
      run.text <:+: s.toList ∧ ∀ p ∈ placeholdersOf s, ¬ p <:+: run.text := by
    intro name hname htext
    have hverbatim := h.verbatim name hname
    have hfresh := h.fresh name hname
    rw [htext, String.toList_ofList] at hverbatim hfresh
    exact ⟨hverbatim, hfresh⟩
  by_cases hcalled : run.called = true
  · by_cases hkeyword : Expr.isKeyword run.text = true
    · exact .keyword hcalled hkeyword
    · rw [if_pos hcalled, Operator.names, if_neg hkeyword] at hrunNames
      have hcall := hnames (.call (String.ofList run.text)) (by simp [hrunNames])
      obtain ⟨hspelled, hfresh⟩ := hname _ hcall rfl
      exact .name hspelled hfresh fun h => by rw [hcalled] at h; cases h
  · have hcalled : run.called = false := Bool.not_eq_true _ ▸ hcalled
    by_cases hchars : run.marks.all Mark.isChar = true
    · have hidentifier : run.isIdentifier = true := by
        simp [Mark.Run.isIdentifier, hcalled, hchars, hword]
      have hmem : .parameter (String.ofList run.text) ∈ e.written :=
        Multiset.mem_of_le h.parameters (Multiset.mem_coe.mpr
          (List.mem_map.mpr ⟨run, List.mem_filter.mpr ⟨hrun, hidentifier⟩, rfl⟩))
      obtain ⟨hspelled, hfresh⟩ := hname _ hmem rfl
      exact .name hspelled hfresh fun _ => hparameter _ hmem
    · have hmark : run.marks.all Mark.isChar = false := Bool.not_eq_true _ ▸ hchars
      obtain ⟨p, hp, hinfix⟩ := exists_placeholder_infix hmarks hmark
      have hplaceholder : isPlaceholder run.text = true := by
        cases hplaceholder : isPlaceholder run.text with
        | true => rfl
        | false =>
          rw [if_neg (by simp [hcalled]),
            Operator.names_of_not_placeholder lifted hplaceholder] at hrunNames
          have hmem := hnames (.parameter (String.ofList run.text)) (by simp [hrunNames])
          exact absurd hinfix ((hname _ hmem rfl).2 p hp)
      exact .value (Mark.Run.isValue_iff.mpr ⟨hcalled,
        Mark.eq_singleton_of_isPlaceholder hmarks.spaced hmark hplaceholder, hplaceholder⟩)

end Tidy

/--
**An expression is hygienic if and only if all runs of its text are tidy**: numbers and references
stand by themselves and are not called, and names stand in the text, contain no name made up for a
number or a reference, and do not look like one unless they are called.
-/
theorem Expr.hygienic_iff {s : String} {e : Expr Float} (h : Expr.parse s = .ok e) :
    Hygienic s e ↔ ∀ run ∈ runsOf s, IsTidy s run := by
  obtain ⟨segments, hsegments, hwritten⟩ := Expr.written_parse h
  have hsegmentsOf : segmentsOf s = segments := by rw [segmentsOf, hsegments]
  have hreferences : ∀ e ∈ (Lifted.ofSegments segments).references, e.written = 0 :=
    Segment.written_references hsegments
  have hmarks : ∀ run ∈ runsOf s, Mark.IsRun (segmentsOf s) run.marks := by
    intro run hrun
    rw [runsOf, hsegmentsOf] at hrun
    rw [hsegmentsOf]
    exact Mark.Run.isRun hsegments hrun
  have hmem : ∀ name, name ∈ e.written ↔
      ∃ run ∈ runsOf s, name ∈ run.names (Lifted.ofSegments segments) := by
    intro name
    rw [hwritten, Multiset.mem_bind, runsOf, hsegmentsOf]
    rfl
  constructor
  · intro hhygienic run hrun
    refine hhygienic.isTidy hrun (hmarks run hrun) (fun name hname => (hmem name).mpr
      ⟨run, hrun, hname⟩) fun name hname => ?_
    obtain ⟨run', -, hname⟩ := (hmem _).mp hname
    exact not_placeholder_of_mem_names hreferences hname
  · intro htidy
    refine ⟨fun name hname => ?_, fun name hname => ?_, ?_⟩
    · obtain ⟨run, hrun, hname⟩ := (hmem name).mp hname
      exact ((htidy run hrun).text_of_mem_names hreferences hname).1
    · obtain ⟨run, hrun, hname⟩ := (hmem name).mp hname
      exact ((htidy run hrun).text_of_mem_names hreferences hname).2
    · rw [hwritten, ← hsegmentsOf]
      exact map_filter_le_bind fun run hrun hidentifier =>
        (htidy run hrun).parameter_mem_names _ (hmarks run hrun) hidentifier

/-- Numbers, references, words, keywords and calls side by side. -/
theorem Expr.hygienic_sample :
    ∃ e, Expr.parse "if(x_1 > 2k, v(a) * gain, min(inf, -3))" = .ok e ∧
      Hygienic "if(x_1 > 2k, v(a) * gain, min(inf, -3))" e := by
  have hok : (Expr.parse "if(x_1 > 2k, v(a) * gain, min(inf, -3))").isOk = true := by
    decide +kernel
  cases hparse : Expr.parse "if(x_1 > 2k, v(a) * gain, min(inf, -3))" with
  | error error =>
    rw [hparse] at hok
    cases hok
  | ok e => exact ⟨e, rfl, (Expr.hygienic_iff hparse).mpr (by decide +kernel)⟩

/-- A name that looks like a placeholder is taken for a number: `__lit0+2` is `2 + 2`. -/
theorem Expr.not_hygienic_placeholder :
    ∃ e, Expr.parse "__lit0+2" = .ok e ∧ ¬ Hygienic "__lit0+2" e := by
  have hok : (Expr.parse "__lit0+2").toOption.any
      (fun e => decide (Name.parameter "__lit0" ∉ e.written)) = true := by decide +kernel
  cases hparse : Expr.parse "__lit0+2" with
  | error error =>
    rw [hparse] at hok
    cases hok
  | ok e =>
    rw [hparse] at hok
    refine ⟨e, rfl, fun h => ?_⟩
    have hidentifiers : Name.parameter "__lit0" ∈ identifiersOf "__lit0+2" := by decide +kernel
    exact of_decide_eq_true hok (Multiset.mem_of_le h.parameters hidentifiers)

end CircuitExpr
