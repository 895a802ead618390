import ImportSuffix.Text.Blank
import ImportSuffix.Text.Word
import Mathlib.Data.List.GetD

/-!
# Texts cut at their quotes

A text is a row of runs without quotes, with one quote between each two of them. This is the view of
a text that its clauses are described in: a clause is a run, a quote, a run and a quote, and whether
a run is the head of a clause can be seen from that run alone.

`Quoted.ofText` and `Quoted.text` are inverse to each other (`text_ofText`, `ofText_text`), so what
is said of the runs and quotes of a text is said of the text.
-/

namespace ImportSuffix

namespace Text

/-- Whether a character is one of the two quotes. -/
def isQuote (c : Char) : Bool := c == '\'' || c == '"'

theorem isQuote_iff {c : Char} : isQuote c = true ↔ c = '\'' ∨ c = '"' := by
  rw [isQuote, Bool.or_eq_true, beq_iff_eq, beq_iff_eq]

theorem isWord_of_isQuote {c : Char} (h : isQuote c = true) : isWord c = false := by
  rcases isQuote_iff.1 h with rfl | rfl <;> decide +kernel

theorem isBlank_of_isQuote {c : Char} (h : isQuote c = true) : isBlank c = false := by
  rcases isQuote_iff.1 h with rfl | rfl <;> decide

/-- That a text has no quotes. -/
def Unquoted (s : List Char) : Prop := ∀ c ∈ s, isQuote c = false

instance (s : List Char) : Decidable (Unquoted s) :=
  decidable_of_iff (s.all fun c => !isQuote c) (by simp [Unquoted])

@[simp] theorem unquoted_nil : Unquoted [] := fun _ h => nomatch h

@[simp] theorem unquoted_cons {c : Char} {s : List Char} :
    Unquoted (c :: s) ↔ isQuote c = false ∧ Unquoted s := List.forall_mem_cons

@[simp] theorem unquoted_append {s t : List Char} :
    Unquoted (s ++ t) ↔ Unquoted s ∧ Unquoted t := List.forall_mem_append

theorem unquoted_of_blank {w : List Char} (h : ∀ c ∈ w, isBlank c = true) : Unquoted w := by
  intro c hc
  rw [← Bool.not_eq_true]
  intro hq
  have hblank := h c hc
  rw [isBlank_of_isQuote hq] at hblank
  cases hblank

theorem Unquoted.of_sublist {s t : List Char} (h : Unquoted t) (hst : s.Sublist t) : Unquoted s :=
  fun c hc => h c (hst.subset hc)

/-- What stands in front of a place in a run, or in front of the quote behind it, has no quotes. -/
theorem Unquoted.of_append_eq {s v w : List Char} {q : Char} (hs : Unquoted s)
    (h : s ++ [q] = v ++ w) (hw : w ≠ []) : Unquoted v := by
  obtain ⟨w, d, rfl⟩ := (List.eq_nil_or_concat w).resolve_left hw
  rw [List.concat_eq_append, ← List.append_assoc] at h
  obtain ⟨rfl, -⟩ := List.append_inj' h rfl
  exact (unquoted_append.1 hs).1

/-- The first quote of a text is where the run before it ends. -/
theorem append_quote_inj {s s' r r' : List Char} {q q' : Char}
    (h : s ++ q :: r = s' ++ q' :: r') (hs : Unquoted s) (hs' : Unquoted s')
    (hq : isQuote q = true) (hq' : isQuote q' = true) : s = s' ∧ q = q' ∧ r = r' := by
  induction s generalizing s' with
  | nil =>
    cases s' with
    | nil => simpa using h
    | cons c s' =>
      obtain ⟨rfl, -⟩ := List.cons.inj h
      simp [hq] at hs'
  | cons c s ih =>
    cases s' with
    | nil =>
      obtain ⟨rfl, -⟩ := List.cons.inj h
      simp [hq'] at hs
    | cons c' s' =>
      rw [List.cons_append, List.cons_append] at h
      obtain ⟨rfl, htail⟩ := List.cons.inj h
      rw [unquoted_cons] at hs hs'
      obtain ⟨rfl, hrest⟩ := ih htail hs.2 hs'.2
      exact ⟨rfl, hrest⟩

/-- A text without quotes does not reach over one. -/
theorem not_unquoted_append_quote {s r : List Char} {q : Char} (hq : isQuote q = true) :
    ¬ Unquoted (s ++ q :: r) := by
  intro h
  simp [hq] at h

/-- The runs and quotes of a text, put together again. -/
def weave : List (List Char) → List Char → List Char
  | s :: runs, q :: quotes => s ++ q :: weave runs quotes
  | s :: _, [] => s
  | [], _ => []

theorem weave_splitOnP_filter (text : List Char) :
    weave (text.splitOnP isQuote) (text.filter isQuote) = text := by
  induction text with
  | nil => rfl
  | cons c text ih =>
    rw [List.splitOnP_cons_eq_if_modifyHead]
    by_cases hc : isQuote c = true
    · rw [if_pos hc, List.filter_cons_of_pos hc, weave, ih, List.nil_append]
    · rw [if_neg hc, List.filter_cons_of_neg hc]
      -- The character joins the first run, whether a quote follows it or not.
      obtain ⟨s, runs, hruns⟩ := List.exists_cons_of_ne_nil (List.splitOnP_ne_nil isQuote text)
      rw [hruns] at ih ⊢
      cases hquotes : text.filter isQuote with
      | nil =>
        rw [hquotes] at ih
        exact congrArg (c :: ·) ih
      | cons q quotes =>
        rw [hquotes] at ih
        exact congrArg (c :: ·) ih

theorem length_splitOnP (text : List Char) :
    (text.splitOnP isQuote).length = (text.filter isQuote).length + 1 := by
  induction text with
  | nil => rfl
  | cons c text ih =>
    rw [List.splitOnP_cons_eq_if_modifyHead]
    by_cases hc : isQuote c = true
    · rw [if_pos hc, List.filter_cons_of_pos hc, List.length_cons, ih, List.length_cons]
    · rw [if_neg hc, List.filter_cons_of_neg hc, List.length_modifyHead, ih]

theorem unquoted_of_mem_splitOnP {text s : List Char} (h : s ∈ text.splitOnP isQuote) :
    Unquoted s := by
  induction text generalizing s with
  | nil =>
    rw [List.splitOnP_nil, List.mem_singleton] at h
    exact h ▸ unquoted_nil
  | cons c text ih =>
    rw [List.splitOnP_cons_eq_if_modifyHead] at h
    obtain ⟨first, runs, hruns⟩ := List.exists_cons_of_ne_nil (List.splitOnP_ne_nil isQuote text)
    rw [hruns] at h ih
    by_cases hc : isQuote c = true
    · rw [if_pos hc] at h
      rcases List.mem_cons.1 h with rfl | h
      · exact unquoted_nil
      · exact ih h
    · rw [if_neg hc, List.modifyHead_cons] at h
      rcases List.mem_cons.1 h with rfl | h
      · exact unquoted_cons.2 ⟨by simpa using hc, ih List.mem_cons_self⟩
      · exact ih (List.mem_cons_of_mem _ h)

/-- Cutting undoes weaving. -/
theorem splitOnP_weave {runs : List (List Char)} {quotes : List Char}
    (hlen : runs.length = quotes.length + 1) (hruns : ∀ s ∈ runs, Unquoted s)
    (hquotes : ∀ q ∈ quotes, isQuote q = true) :
    (weave runs quotes).splitOnP isQuote = runs ∧
      (weave runs quotes).filter isQuote = quotes := by
  induction quotes generalizing runs with
  | nil =>
    obtain ⟨s, rfl⟩ := List.length_eq_one_iff.1 hlen
    have hs : Unquoted s := hruns s List.mem_cons_self
    rw [weave]
    exact ⟨List.splitOnP_eq_singleton hs, List.filter_eq_nil_iff.2 fun c hc => by simp [hs c hc]⟩
  | cons q quotes ih =>
    cases runs with
    | nil => simp at hlen
    | cons s runs =>
      have hs : Unquoted s := hruns s List.mem_cons_self
      have hq : isQuote q = true := hquotes q List.mem_cons_self
      have hnone : s.filter isQuote = [] := List.filter_eq_nil_iff.2 fun c hc => by simp [hs c hc]
      obtain ⟨hsplit, hfilter⟩ := ih (by simpa using hlen)
        (fun t ht => hruns t (List.mem_cons_of_mem _ ht))
        (fun c hc => hquotes c (List.mem_cons_of_mem _ hc))
      rw [weave]
      constructor
      · rw [List.splitOnP_append_cons_of_forall_mem hs q hq, hsplit]
      · rw [List.filter_append, hnone, List.filter_cons_of_pos hq, hfilter, List.nil_append]

/-- Texts that were cut are woven in a row by joining the last run of the first and the first run of
the second. -/
theorem weave_append_cons {runs runs' : List (List Char)} {quotes quotes' : List Char}
    {s s' : List Char} (hlen : runs.length = quotes.length) :
    weave (runs ++ (s ++ s') :: runs') (quotes ++ quotes') =
      weave (runs ++ [s]) quotes ++ weave (s' :: runs') quotes' := by
  induction runs generalizing quotes with
  | nil =>
    obtain rfl := List.length_eq_zero_iff.1 hlen.symm
    cases quotes' with
    | nil => rfl
    | cons q quotes' => exact List.append_assoc s s' _
  | cons u runs ih =>
    cases quotes with
    | nil => cases hlen
    | cons q quotes =>
      have hrest := ih (Nat.succ.inj hlen)
      simp only [List.cons_append, weave, hrest, List.append_assoc]

end Text

open Text

/-- A text cut at its quotes. -/
@[ext] structure Quoted where
  runs : List (List Char)
  quotes : List Char
  length_runs : runs.length = quotes.length + 1
  unquoted_of_mem : ∀ s ∈ runs, Unquoted s
  isQuote_of_mem : ∀ q ∈ quotes, isQuote q = true

namespace Quoted

/-- Cuts a text at its quotes. -/
def ofText (text : List Char) : Quoted where
  runs := text.splitOnP isQuote
  quotes := text.filter isQuote
  length_runs := length_splitOnP text
  unquoted_of_mem _ h := unquoted_of_mem_splitOnP h
  isQuote_of_mem _ h := (List.mem_filter.1 h).2

/-- The text that was cut. -/
def text (T : Quoted) : List Char := weave T.runs T.quotes

@[simp] theorem text_ofText (text : List Char) : (ofText text).text = text :=
  weave_splitOnP_filter text

@[simp] theorem ofText_text (T : Quoted) : ofText T.text = T :=
  have h := splitOnP_weave T.length_runs T.unquoted_of_mem T.isQuote_of_mem
  Quoted.ext h.1 h.2

/-- The number of quotes. There is one more run. -/
def size (T : Quoted) : Nat := T.quotes.length

/-- The run of that number; past the last one, nothing. -/
def run (T : Quoted) (k : Nat) : List Char := T.runs.getD k []

/-- The quote after the run of that number; past the last one it does not matter which. -/
def quote (T : Quoted) (k : Nat) : Char := T.quotes.getD k '"'

theorem unquoted_run (T : Quoted) (k : Nat) : Unquoted (T.run k) := by
  rw [run, List.getD_eq_getElem?_getD]
  cases h : T.runs[k]? with
  | none => exact unquoted_nil
  | some s => exact T.unquoted_of_mem s (List.mem_of_getElem? h)

theorem isQuote_quote (T : Quoted) (k : Nat) : isQuote (T.quote k) = true := by
  rw [quote, List.getD_eq_getElem?_getD]
  cases h : T.quotes[k]? with
  | none => rfl
  | some q => exact T.isQuote_of_mem q (List.mem_of_getElem? h)

theorem run_eq_nil {T : Quoted} {k : Nat} (h : T.size < k) : T.run k = [] :=
  List.getD_eq_default _ _ (by rw [T.length_runs]; exact h)

/-- Two texts are the same if they have as many quotes and agree run by run and quote by quote. -/
theorem ext_of_forall {T T' : Quoted} (hsize : T.size = T'.size) (hrun : ∀ k, T.run k = T'.run k)
    (hquote : ∀ k, T.quote k = T'.quote k) : T = T' := by
  refine Quoted.ext (List.ext_getElem ?_ fun k h h' => ?_) (List.ext_getElem hsize fun k h h' => ?_)
  · rw [T.length_runs, T'.length_runs]
    exact congrArg (· + 1) hsize
  · have hk := hrun k
    rwa [run, run, List.getD_eq_getElem _ _ h, List.getD_eq_getElem _ _ h'] at hk
  · have hk := hquote k
    rwa [quote, quote, List.getD_eq_getElem _ _ h, List.getD_eq_getElem _ _ h'] at hk

/-- The text from the run of that number on. -/
def textFrom (T : Quoted) (k : Nat) : List Char := weave (T.runs.drop k) (T.quotes.drop k)

theorem textFrom_zero (T : Quoted) : T.textFrom 0 = T.text := rfl

theorem textFrom_of_lt {T : Quoted} {k : Nat} (h : k < T.size) :
    T.textFrom k = T.run k ++ T.quote k :: T.textFrom (k + 1) := by
  have hruns : k < T.runs.length := by rw [T.length_runs]; exact Nat.lt_succ_of_lt h
  have hquotes : k < T.quotes.length := h
  rw [textFrom, List.drop_eq_getElem_cons hruns, List.drop_eq_getElem_cons hquotes, weave, run,
    quote, List.getD_eq_getElem _ _ hruns, List.getD_eq_getElem _ _ hquotes]
  rfl

theorem textFrom_size (T : Quoted) : T.textFrom T.size = T.run T.size := by
  have hruns : T.size < T.runs.length := by rw [T.length_runs]; exact Nat.lt_succ_self _
  have hquotes : T.quotes.drop T.size = [] := List.drop_length
  rw [textFrom, List.drop_eq_getElem_cons hruns, hquotes, weave, run,
    List.getD_eq_getElem _ _ hruns]

/-! ### Two texts in a row -/

/-- The last run stands at the end of the text. -/
theorem runs_eq_dropLast_append (T : Quoted) : T.runs = T.runs.dropLast ++ [T.run T.size] := by
  have hne : T.runs ≠ [] := List.ne_nil_of_length_eq_add_one T.length_runs
  have hlast : T.run T.size = T.runs.getLast hne := by
    have hlt : T.size < T.runs.length := by rw [T.length_runs]; exact Nat.lt_succ_self _
    rw [List.getLast_eq_getElem, run, List.getD_eq_getElem _ _ hlt]
    simp only [T.length_runs, Nat.add_sub_cancel, size]
  rw [hlast, List.dropLast_concat_getLast hne]

/-- Two texts in a row. The last run of the first and the first run of the second are one. -/
def append (A B : Quoted) : Quoted where
  runs := A.runs.dropLast ++ (A.run A.size ++ B.run 0) :: B.runs.tail
  quotes := A.quotes ++ B.quotes
  length_runs := by
    simp only [List.length_append, List.length_dropLast, List.length_cons, List.length_tail,
      A.length_runs, B.length_runs]
    omega
  unquoted_of_mem s h := by
    rcases List.mem_append.1 h with h | h
    · exact A.unquoted_of_mem s ((List.dropLast_sublist _).subset h)
    · rcases List.mem_cons.1 h with rfl | h
      · exact unquoted_append.2 ⟨A.unquoted_run _, B.unquoted_run 0⟩
      · exact B.unquoted_of_mem s (List.mem_of_mem_tail h)
  isQuote_of_mem q h := (List.mem_append.1 h).elim (A.isQuote_of_mem q) (B.isQuote_of_mem q)

variable {A B : Quoted} {k : Nat}

@[simp] theorem size_append (A B : Quoted) : (A.append B).size = A.size + B.size :=
  List.length_append

theorem length_dropLast_runs (T : Quoted) : T.runs.dropLast.length = T.size := by
  rw [List.length_dropLast, T.length_runs]
  rfl

theorem run_append_of_lt (h : k < A.size) : (A.append B).run k = A.run k := by
  have hk : k < A.runs.dropLast.length := by rwa [length_dropLast_runs]
  have hruns : A.runs.getD k [] = (A.runs.dropLast ++ [A.run A.size]).getD k [] :=
    congrArg (List.getD · k []) A.runs_eq_dropLast_append
  rw [run, run, hruns, append, List.getD_append _ _ _ _ hk, List.getD_append _ _ _ _ hk]

/-- What a text has in front of the run of that number of a text behind it. -/
def lead (T : Quoted) (k : Nat) : List Char := if k = 0 then T.run T.size else []

@[simp] theorem lead_zero (T : Quoted) : T.lead 0 = T.run T.size := rfl

@[simp] theorem lead_succ (T : Quoted) (k : Nat) : T.lead (k + 1) = [] := rfl

theorem run_append_add (k : Nat) : (A.append B).run (A.size + k) = A.lead k ++ B.run k := by
  have hle : A.runs.dropLast.length ≤ A.size + k := by
    rw [length_dropLast_runs]
    exact Nat.le_add_right _ _
  rw [run, append, List.getD_append_right _ _ _ _ hle, length_dropLast_runs,
    Nat.add_sub_cancel_left]
  cases k with
  | zero => rfl
  | succ k =>
    obtain ⟨s, runs, hruns⟩ := List.exists_cons_of_length_eq_add_one B.length_runs
    rw [List.getD_cons_succ, run, hruns]
    rfl

theorem quote_append_of_lt (h : k < A.size) : (A.append B).quote k = A.quote k :=
  List.getD_append _ _ _ _ h

theorem quote_append_add (k : Nat) : (A.append B).quote (A.size + k) = B.quote k := by
  have hle : A.quotes.length ≤ A.size + k := Nat.le_add_right _ _
  have hsub : A.size + k - A.quotes.length = k := Nat.add_sub_cancel_left _ _
  rw [quote, append, List.getD_append_right _ _ _ _ hle, hsub, quote]

@[simp] theorem text_append (A B : Quoted) : (A.append B).text = A.text ++ B.text := by
  have hlen : A.runs.dropLast.length = A.quotes.length := length_dropLast_runs A
  obtain ⟨s, runs, hruns⟩ := List.exists_cons_of_length_eq_add_one B.length_runs
  have hfirst : B.run 0 = s := by
    rw [run, hruns]
    rfl
  rw [text, append, weave_append_cons hlen, ← runs_eq_dropLast_append, hfirst, hruns,
    List.tail_cons, ← hruns]
  rfl

theorem ofText_append (s t : List Char) : ofText (s ++ t) = (ofText s).append (ofText t) := by
  rw [← ofText_text ((ofText s).append (ofText t)), text_append, text_ofText, text_ofText]

/-- The last run of a text ends as the text does, if it is not empty. -/
theorem getLast?_run_size (T : Quoted) (h : T.run T.size ≠ []) :
    (T.run T.size).getLast? = T.text.getLast? := by
  have hlen : T.runs.dropLast.length = T.quotes.length := length_dropLast_runs T
  have htext : weave (T.runs.dropLast ++ [[] ++ T.run T.size]) (T.quotes ++ []) =
      weave (T.runs.dropLast ++ [[]]) T.quotes ++ weave [T.run T.size] [] :=
    weave_append_cons hlen
  rw [List.nil_append, List.append_nil, ← runs_eq_dropLast_append] at htext
  have hlast : weave [T.run T.size] [] = T.run T.size := rfl
  rw [text, htext, hlast, List.getLast?_append, List.getLast?_eq_some_getLast h, Option.some_or]

end Quoted

end ImportSuffix
