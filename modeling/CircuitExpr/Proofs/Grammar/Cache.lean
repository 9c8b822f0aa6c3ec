import Mathlib
import CircuitExpr.Grammar.Cache

/-!
# Caches are in step with their text

A cache is served a run of requests: texts are set, and what the text stands for is asked for. How
a text is read is left open, so nothing depends on which texts can be read. What is stored is tied
to the requests by one invariant, `Faithful`, which each request keeps.

## Main statements

* `TextCache.get_cases` — all that can happen when a cache is asked
* `TextCache.Faithful.serve` — the step, `TextCache.faithful_after` the run
* `TextCache.after_inStep` — what a cache answers after any requests
-/

namespace CircuitExpr

namespace TextCache

variable {A E : Type} {read : String → Except E A} {c : TextCache A} {text : String}

/-! ## Requests -/

/-- What a cache can be asked. -/
inductive Request where
  | set (text : String)
  | get

/-- What it answers: whether the text has changed, or what the text stands for. -/
inductive Answer (A E : Type) where
  | changed (b : Bool)
  | got (result : Except E (Option A))

/-- The answer to a request, and the cache afterwards. -/
def serve (read : String → Except E A) (c : TextCache A) : Request → Answer A E × TextCache A
  | .set text => (.changed (c.changes text), c.setText text)
  | .get =>
    let (result, c) := c.get read
    (.got result, c)

/-- A new cache after requests. -/
def after (read : String → Except E A) (requests : List Request) : TextCache A :=
  requests.foldl (fun c r => (c.serve read r).2) empty

/-- The texts that are set, in order. -/
def texts (requests : List Request) : List String :=
  requests.filterMap fun
    | .set text => some text
    | .get => none

/-- The text set most recently. -/
def lastText (requests : List Request) : Option String := (texts requests).getLast?

/-- What the text stands for was asked for with success, and no other text was set since. -/
def ReadSince (read : String → Except E A) (requests : List Request) : Prop :=
  ∃ before since, requests = before ++ .get :: since ∧
    (∃ a, ((after read before).serve read .get).1 = .got (.ok a)) ∧
    ∀ text ∈ texts since, lastText before = some text

@[simp] theorem after_concat (requests : List Request) (r : Request) :
    after read (requests ++ [r]) = ((after read requests).serve read r).2 :=
  List.foldl_concat ..

theorem texts_append (before since : List Request) :
    texts (before ++ since) = texts before ++ texts since := List.filterMap_append ..

@[simp] theorem lastText_concat_set (requests : List Request) (text : String) :
    lastText (requests ++ [.set text]) = some text := by
  rw [lastText, texts_append]
  exact List.getLast?_concat ..

@[simp] theorem lastText_concat_get (requests : List Request) :
    lastText (requests ++ [.get]) = lastText requests := by
  rw [lastText, texts_append]
  exact congrArg List.getLast? (List.append_nil _)

/-- The text stays as long as no other one is set. -/
theorem lastText_append {before since : List Request}
    (h : ∀ text ∈ texts since, lastText before = some text) :
    lastText (before ++ since) = lastText before := by
  rw [lastText, texts_append, List.getLast?_append]
  cases hlast : (texts since).getLast? with
  | none => rfl
  | some text => exact (h text (List.mem_of_getLast? hlast)).symm

/-! ## When what was read still counts -/

theorem readSince_concat_set (requests : List Request) (text : String) :
    ReadSince read (requests ++ [.set text]) ↔
      ReadSince read requests ∧ lastText requests = some text := by
  constructor
  · rintro ⟨before, since, hsplit, hread, hsince⟩
    obtain rfl | ⟨since, r, rfl⟩ := since.eq_nil_or_concat'
    · exact nomatch (List.append_inj' hsplit rfl).2
    · -- the text is among those set since, so it is the one that was read
      rw [← List.cons_append, ← List.append_assoc] at hsplit
      obtain ⟨rfl, hlast⟩ := List.append_inj' hsplit rfl
      obtain rfl : Request.set text = r := List.singleton_inj.mp hlast
      rw [texts_append] at hsince
      have hbefore : ∀ t ∈ texts (.get :: since), lastText before = some t := fun t ht =>
        hsince t (List.mem_append_left _ ht)
      refine ⟨⟨before, since, rfl, hread, hbefore⟩, ?_⟩
      rw [lastText_append hbefore]
      exact hsince text (List.mem_append_right _ List.mem_cons_self)
  · rintro ⟨⟨before, since, rfl, hread, hsince⟩, hlast⟩
    refine ⟨before, since ++ [.set text], by simp, hread, fun t ht => ?_⟩
    rw [texts_append, List.mem_append] at ht
    obtain ht | ht := ht
    · exact hsince t ht
    · obtain rfl : t = text := List.mem_singleton.mp ht
      have hsame : lastText (before ++ .get :: since) = lastText before := lastText_append hsince
      rwa [← hsame]

theorem readSince_concat_get (requests : List Request) :
    ReadSince read (requests ++ [.get]) ↔ ReadSince read requests ∨
      ∃ a, ((after read requests).serve read .get).1 = .got (.ok a) := by
  constructor
  · rintro ⟨before, since, hsplit, hread, hsince⟩
    obtain rfl | ⟨since, r, rfl⟩ := since.eq_nil_or_concat'
    · obtain ⟨rfl, -⟩ := List.append_inj' hsplit rfl
      exact .inr hread
    · rw [← List.cons_append, ← List.append_assoc] at hsplit
      obtain ⟨rfl, -⟩ := List.append_inj' hsplit rfl
      rw [texts_append] at hsince
      exact .inl ⟨before, since, rfl, hread, fun t ht => hsince t (List.mem_append_left _ ht)⟩
  · rintro (⟨before, since, rfl, hread, hsince⟩ | hread)
    · refine ⟨before, since ++ [.get], by simp, hread, fun t ht => hsince t ?_⟩
      rwa [texts_append, show texts [.get] = [] from rfl, List.append_nil] at ht
    · exact ⟨requests, [], rfl, hread, fun t ht => nomatch ht⟩

/-! ## Single requests -/

/-- All that can happen when the cache is asked what its text stands for. -/
theorem get_cases (read : String → Except E A) (c : TextCache A) :
    (∃ a, c.value = some a ∧ c.get read = (.ok (some a), c)) ∨
      (c.text = none ∧ c.value = none ∧ c.get read = (.ok none, c)) ∨
      ∃ text, c.text = some text ∧ c.value = none ∧
        ((∃ a, read text = .ok a ∧ c.get read = (.ok (some a), ⟨some text, some a⟩)) ∨
          ∃ e, read text = .error e ∧ c.get read = (.error e, c)) := by
  obtain ⟨text, value⟩ := c
  cases value with
  | some a => exact .inl ⟨a, rfl, rfl⟩
  | none =>
    cases text with
    | none => exact .inr (.inl ⟨rfl, rfl, rfl⟩)
    | some text =>
      refine .inr (.inr ⟨text, rfl, rfl, ?_⟩)
      cases hread : read text with
      | ok a => exact .inl ⟨a, rfl, by simp only [get, hread]⟩
      | error e => exact .inr ⟨e, rfl, by simp only [get, hread]⟩

/-- **A failure changes nothing.** -/
theorem get_of_error {e : E} (h : (c.get read).1 = .error e) : (c.get read).2 = c := by
  obtain ⟨a, -, hget⟩ | ⟨-, -, hget⟩ | ⟨text, -, -, ⟨a, -, hget⟩ | ⟨e, -, hget⟩⟩ := get_cases read c
  · rw [hget]
  · rw [hget]
  · rw [hget] at h
    exact nomatch h
  · rw [hget]

theorem setText_of_same (h : c.text = some text) : c.setText text = c := if_pos h

theorem setText_of_other (h : c.text ≠ some text) : c.setText text = ⟨some text, none⟩ := if_neg h

/-! ## The invariant -/

/-- What the cache holds belongs to the text set most recently. -/
structure Faithful (read : String → Except E A) (requests : List Request) (c : TextCache A) :
    Prop where
  text : c.text = lastText requests
  value : ∀ a, c.value = some a → ∃ text, c.text = some text ∧ read text = .ok a
  fresh : c.value.isSome = true ↔ c.text.isSome = true ∧ ReadSince read requests

theorem faithful_empty : Faithful read [] (empty : TextCache A) where
  text := rfl
  value := fun _ h => nomatch h
  fresh := ⟨fun h => (nomatch h), fun h => nomatch h.1⟩

/-- Setting a text keeps the cache faithful: what was read stays if the text does. -/
theorem Faithful.setText {requests : List Request} (h : Faithful read requests c)
    (text : String) : Faithful read (requests ++ [.set text]) (c.setText text) := by
  by_cases hsame : c.text = some text
  · rw [setText_of_same hsame]
    refine ⟨by rw [lastText_concat_set, hsame], h.value, ?_⟩
    rw [readSince_concat_set, h.fresh, ← h.text]
    exact ⟨fun ⟨hsome, hread⟩ => ⟨hsome, hread, hsame⟩, fun ⟨hsome, hread, _⟩ => ⟨hsome, hread⟩⟩
  · rw [setText_of_other hsame]
    refine ⟨by rw [lastText_concat_set], fun _ ha => (nomatch ha), ?_⟩
    rw [readSince_concat_set, ← h.text]
    exact ⟨fun ha => (nomatch ha), fun ⟨_, _, htext⟩ => absurd htext hsame⟩

/-- Asking keeps the cache faithful: what is read is remembered, but no failure is. -/
theorem Faithful.get {requests : List Request} (h : Faithful read requests c)
    (hc : c = after read requests) : Faithful read (requests ++ [.get]) (c.get read).2 := by
  subst hc
  have hsuccess {a : Option A} (ha : ((after read requests).get read).1 = .ok a) :
      ReadSince read (requests ++ [.get]) :=
    (readSince_concat_get requests).mpr (.inr ⟨a, congrArg Answer.got ha⟩)
  have htext := h.text.trans (lastText_concat_get requests).symm
  obtain ⟨a, hvalue, hget⟩ | ⟨hnone, hvalue, hget⟩ |
    ⟨text, hsome, hvalue, ⟨a, hread, hget⟩ | ⟨e, hread, hget⟩⟩ :=
      get_cases read (after read requests)
  · obtain ⟨text, hsome, -⟩ := h.value a hvalue
    rw [hget]
    refine ⟨htext, h.value, ?_⟩
    rw [hvalue, hsome]
    exact ⟨fun _ => ⟨rfl, hsuccess (congrArg Prod.fst hget)⟩, fun _ => rfl⟩
  · rw [hget]
    refine ⟨htext, h.value, ?_⟩
    rw [hvalue, hnone]
    exact ⟨fun hv => (nomatch hv), fun hv => nomatch hv.1⟩
  · rw [hget]
    refine ⟨hsome.symm.trans htext, fun x hx => ⟨text, rfl, ?_⟩, fun _ => ⟨rfl, ?_⟩, fun _ => rfl⟩
    · rw [hread, Option.some.inj hx]
    · exact hsuccess (congrArg Prod.fst hget)
  · -- a failure neither stores anything nor counts as a reading
    rw [hget]
    have hfailed : ¬ ∃ a, ((after read requests).serve read .get).1 = .got (.ok a) :=
      fun ⟨a, ha⟩ => nomatch (congrArg Prod.fst hget).symm.trans (Answer.got.inj ha)
    refine ⟨htext, h.value, ?_⟩
    rw [readSince_concat_get, or_iff_left hfailed]
    exact h.fresh

/-- **Each request keeps the cache faithful.** -/
theorem Faithful.serve {requests : List Request} (h : Faithful read requests c)
    (hc : c = after read requests) :
    ∀ r : Request, Faithful read (requests ++ [r]) (c.serve read r).2
  | .set text => h.setText text
  | .get => h.get hc

/-- **A new cache is faithful after any requests.** -/
theorem faithful_after (read : String → Except E A) (requests : List Request) :
    Faithful read requests (after read requests) := by
  induction requests using List.reverseRecOn with
  | nil => exact faithful_empty
  | append_singleton requests r ih =>
    rw [after_concat]
    exact ih.serve rfl r

/-! ## What a cache answers -/

/-- What the text stands for, if there is one. -/
def meaning (read : String → Except E A) : Option String → Except E (Option A)
  | none => .ok none
  | some text => (read text).map some

/-- It makes no difference whether the text has been read already. -/
theorem Faithful.get_eq {requests : List Request} (h : Faithful read requests c) :
    (c.get read).1 = meaning read (lastText requests) := by
  rw [← h.text]
  obtain ⟨a, hvalue, hget⟩ | ⟨hnone, -, hget⟩ |
    ⟨text, hsome, -, ⟨a, hread, hget⟩ | ⟨e, hread, hget⟩⟩ := get_cases read c
  · obtain ⟨text, hsome, hread⟩ := h.value a hvalue
    rw [hget, hsome, meaning, hread]
    rfl
  · rw [hget, hnone, meaning]
  · rw [hget, hsome, meaning, hread]
    rfl
  · rw [hget, hsome, meaning, hread]
    rfl

/-- What a cache that has served these requests answers to the next one. -/
structure InStep (read : String → Except E A) (requests : List Request) (c : TextCache A) :
    Prop where
  /-- It has what stands in the text set most recently, or the failure to read it. -/
  get : (c.serve read .get).1 = .got (meaning read (lastText requests))
  /-- It has nothing exactly if no text was ever set. -/
  get_none : (c.serve read .get).1 = .got (.ok none) ↔ texts requests = []
  /-- A text is a change exactly if it is not the one set before. -/
  set : ∀ text, ∃ b, (c.serve read (.set text)).1 = .changed b ∧
    (b = true ↔ lastText requests ≠ some text)
  isDirty : c.isDirty = true ↔ lastText requests ≠ none ∧ ¬ ReadSince read requests
  /-- A failure changes nothing. -/
  failed : ∀ e, (c.serve read .get).1 = .got (.error e) → (c.serve read .get).2 = c
  /-- Nothing is lost when the text is set again. -/
  unchanged : ∀ text, lastText requests = some text → (c.serve read (.set text)).2 = c

theorem Faithful.isDirty_iff {requests : List Request} (h : Faithful read requests c) :
    c.isDirty = true ↔ lastText requests ≠ none ∧ ¬ ReadSince read requests := by
  rw [isDirty, Bool.and_eq_true, Option.isNone_iff_eq_none, ← Option.not_isSome_iff_eq_none,
    h.fresh, not_and, ← h.text, ← Option.isSome_iff_ne_none]
  exact and_congr_right fun hsome => imp_iff_right hsome

/-- Nothing is in the text only if there is no text. -/
theorem meaning_eq_none (read : String → Except E A) (requests : List Request) :
    meaning read (lastText requests) = .ok none ↔ texts requests = [] := by
  rw [← List.getLast?_eq_none_iff]
  show _ ↔ lastText requests = none
  cases lastText requests with
  | none => exact ⟨fun _ => rfl, fun _ => rfl⟩
  | some text =>
    rw [meaning]
    cases read text with
    | ok a => exact ⟨fun h => (nomatch h), fun h => (nomatch h)⟩
    | error e => exact ⟨fun h => (nomatch h), fun h => (nomatch h)⟩

/-- **A cache is in step with its text** after any requests, whatever can be read. -/
theorem after_inStep (read : String → Except E A) (requests : List Request) :
    InStep read requests (after read requests) := by
  have h := faithful_after read requests
  refine ⟨congrArg Answer.got h.get_eq, ?_, fun text => ⟨_, rfl, ?_⟩, h.isDirty_iff,
    fun e he => get_of_error (Answer.got.inj he),
    fun text htext => setText_of_same (h.text.trans htext)⟩
  · rw [← meaning_eq_none read, ← h.get_eq]
    exact Answer.got.injEq _ _ ▸ Iff.rfl
  · rw [← h.text]
    exact bne_iff_ne

end TextCache

end CircuitExpr
