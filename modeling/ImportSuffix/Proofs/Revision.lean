import ImportSuffix.Proofs.Quoted

/-!
# Revisions of the clauses of a text

A clause is four neighbours in a text that is cut at its quotes: a run, a quote, a run and a quote.
A revision says of some clauses what becomes of them. Two clauses that it is for never share a run,
so it can be carried out at all of them independently of each other (`Quoted.revise`): a run that is
the path of a revised clause comes from that clause, one that is the head of a revised clause comes
from that clause, and every other run stays as it is. What happens to a run or a quote is told from
its number (`run_revise`, `quote_revise`), and what happens to the text by going from one revised
clause to the next (`Quoted.walk`).
-/

namespace ImportSuffix

open Text

/-- A run, a quote, a run and a quote in a row. -/
@[ext] structure Clause where
  head : List Char
  opening : Char
  path : List Char
  closing : Char
  deriving Repr, DecidableEq

namespace Clause

/-- The text of a clause. -/
def text (c : Clause) : List Char := c.head ++ c.opening :: (c.path ++ [c.closing])

@[simp] theorem text_append (c : Clause) (r : List Char) :
    c.text ++ r = c.head ++ c.opening :: (c.path ++ c.closing :: r) := by
  simp [text]

theorem getLast?_text (c : Clause) : c.text.getLast? = some c.closing := by
  rw [text, ← List.cons_append, ← List.append_assoc]
  exact List.getLast?_concat

/-- That the quotes of a clause are quotes, and the only ones in it. -/
structure WellFormed (c : Clause) : Prop where
  head : Unquoted c.head
  opening : isQuote c.opening = true
  path : Unquoted c.path
  closing : isQuote c.closing = true

/-- A text begins with one clause at most. -/
theorem text_append_inj {c d : Clause} {r r' : List Char} (hc : c.WellFormed) (hd : d.WellFormed)
    (h : c.text ++ r = d.text ++ r') : c = d ∧ r = r' := by
  rw [text_append, text_append] at h
  obtain ⟨hhead, hopening, h⟩ := append_quote_inj h hc.head hd.head hc.opening hd.opening
  obtain ⟨hpath, hclosing, h⟩ := append_quote_inj h hc.path hd.path hc.closing hd.closing
  exact ⟨Clause.ext hhead hopening hpath hclosing, h⟩

end Clause

/-- What becomes of some clauses. -/
structure Revision where
  /-- The new clause, for the clauses that the revision is for. -/
  revise? : Clause → Option Clause
  wellFormed : ∀ {c c' : Clause}, c.WellFormed → revise? c = some c' → c'.WellFormed
  /-- The path of a clause that is revised is not the head of another one. -/
  apart : ∀ {c c' d : Clause}, revise? c = some c' → d.head = c.path → revise? d = none

namespace Quoted

/-- The clause that begins with the run of that number. -/
def clauseAt (T : Quoted) (k : Nat) : Clause :=
  ⟨T.run k, T.quote k, T.run (k + 1), T.quote (k + 1)⟩

theorem wellFormed_clauseAt (T : Quoted) (k : Nat) : (T.clauseAt k).WellFormed :=
  ⟨T.unquoted_run k, T.isQuote_quote k, T.unquoted_run (k + 1), T.isQuote_quote (k + 1)⟩

theorem textFrom_eq_clauseAt {T : Quoted} {k : Nat} (h : k + 1 < T.size) :
    T.textFrom k = (T.clauseAt k).text ++ T.textFrom (k + 2) := by
  rw [textFrom_of_lt (Nat.lt_of_succ_lt h), textFrom_of_lt h, Clause.text_append]
  rfl

/-- A text that goes on with a clause has two more quotes, and the clause is the one there. -/
theorem eq_clauseAt {T : Quoted} {k : Nat} {c : Clause} {r : List Char} (hk : k ≤ T.size)
    (hc : c.WellFormed) (h : T.textFrom k = c.text ++ r) : k + 1 < T.size ∧ c = T.clauseAt k := by
  have hlt : k + 1 < T.size := by
    rcases Nat.lt_or_ge (k + 1) T.size with hlt | hge
    · exact hlt
    · exfalso
      -- The last run would have the opening quote of the clause, or its closing one.
      rw [Clause.text_append] at h
      rcases Nat.eq_or_lt_of_le hk with rfl | hk
      · rw [textFrom_size] at h
        exact not_unquoted_append_quote hc.opening (h ▸ T.unquoted_run T.size)
      · rw [textFrom_of_lt hk] at h
        obtain ⟨-, -, h⟩ :=
          append_quote_inj h (T.unquoted_run k) hc.head (T.isQuote_quote k) hc.opening
        rw [show k + 1 = T.size by omega, textFrom_size] at h
        exact not_unquoted_append_quote hc.closing (h ▸ T.unquoted_run T.size)
  rw [textFrom_eq_clauseAt hlt] at h
  exact ⟨hlt, (Clause.text_append_inj (T.wellFormed_clauseAt k) hc h).1.symm⟩

section

variable (T : Quoted) (f : Revision)

/-- What becomes of the clause that begins with the run of that number, if the text has it and the
revision is for it. -/
def revisedAt (k : Nat) : Option Clause :=
  if k + 1 < T.size then f.revise? (T.clauseAt k) else none

/-- What becomes of the clause whose path is the run of that number. -/
def revisedBefore : Nat → Option Clause
  | 0 => none
  | k + 1 => T.revisedAt f k

/-- What becomes of a run. -/
def revisedRun (k : Nat) : List Char :=
  match T.revisedBefore f k, T.revisedAt f k with
  | some c, _ => c.path
  | none, some c => c.head
  | none, none => T.run k

/-- What becomes of a quote. -/
def revisedQuote (k : Nat) : Char :=
  match T.revisedBefore f k, T.revisedAt f k with
  | some c, _ => c.closing
  | none, some c => c.opening
  | none, none => T.quote k

end

section

variable {T : Quoted} {f : Revision} {k : Nat} {c : Clause}

theorem lt_size_of_revisedAt (h : T.revisedAt f k = some c) : k + 1 < T.size := by
  unfold revisedAt at h
  split at h
  · assumption
  · cases h

theorem revise?_of_revisedAt (h : T.revisedAt f k = some c) :
    f.revise? (T.clauseAt k) = some c := by
  rwa [revisedAt, if_pos (lt_size_of_revisedAt h)] at h

theorem revisedAt_eq_none_of_size_le (h : T.size ≤ k + 1) : T.revisedAt f k = none :=
  if_neg (Nat.not_lt.2 h)

theorem wellFormed_of_revisedAt (h : T.revisedAt f k = some c) : c.WellFormed :=
  f.wellFormed (T.wellFormed_clauseAt k) (revise?_of_revisedAt h)

/-- The run after the head of a revised clause is not itself the head of one. -/
theorem revisedAt_succ (h : T.revisedAt f k = some c) : T.revisedAt f (k + 1) = none := by
  have hnone : f.revise? (T.clauseAt (k + 1)) = none := f.apart (revise?_of_revisedAt h) rfl
  rw [revisedAt, hnone, ite_self]

/-- The head of a revised clause is not the path of one. -/
theorem revisedBefore_of_revisedAt (h : T.revisedAt f k = some c) : T.revisedBefore f k = none := by
  cases k with
  | zero => rfl
  | succ k =>
    rw [revisedBefore]
    cases hk : T.revisedAt f k with
    | none => rfl
    | some d => rw [revisedAt_succ hk] at h; cases h

theorem lt_size_of_revisedBefore (h : T.revisedBefore f k = some c) : 0 < k ∧ k < T.size := by
  cases k with
  | zero => cases h
  | succ k => exact ⟨Nat.succ_pos k, lt_size_of_revisedAt h⟩

theorem revisedBefore_eq_none_of_size_le (h : T.size ≤ k) : T.revisedBefore f k = none := by
  cases k with
  | zero => rfl
  | succ k => exact revisedAt_eq_none_of_size_le h

theorem wellFormed_of_revisedBefore (h : T.revisedBefore f k = some c) : c.WellFormed := by
  cases k with
  | zero => cases h
  | succ k => exact wellFormed_of_revisedAt h

theorem unquoted_revisedRun (T : Quoted) (f : Revision) (k : Nat) :
    Unquoted (T.revisedRun f k) := by
  unfold revisedRun
  split
  · next hb => exact (wellFormed_of_revisedBefore hb).path
  · next _ ha => exact (wellFormed_of_revisedAt ha).head
  · exact T.unquoted_run k

theorem isQuote_revisedQuote (T : Quoted) (f : Revision) (k : Nat) :
    isQuote (T.revisedQuote f k) = true := by
  unfold revisedQuote
  split
  · next hb => exact (wellFormed_of_revisedBefore hb).closing
  · next _ ha => exact (wellFormed_of_revisedAt ha).opening
  · exact T.isQuote_quote k

end

/-- The text with all clauses revised that the revision is for. -/
def revise (T : Quoted) (f : Revision) : Quoted where
  runs := T.runs.mapIdx fun k _ => T.revisedRun f k
  quotes := T.quotes.mapIdx fun k _ => T.revisedQuote f k
  length_runs := by rw [List.length_mapIdx, List.length_mapIdx, T.length_runs]
  unquoted_of_mem s h := by
    obtain ⟨k, _, rfl⟩ := List.mem_mapIdx.1 h
    exact unquoted_revisedRun T f k
  isQuote_of_mem q h := by
    obtain ⟨k, _, rfl⟩ := List.mem_mapIdx.1 h
    exact isQuote_revisedQuote T f k

section

variable {T : Quoted} {f : Revision} {k : Nat} {c : Clause}

@[simp] theorem size_revise (T : Quoted) (f : Revision) : (T.revise f).size = T.size :=
  List.length_mapIdx

theorem run_revise (T : Quoted) (f : Revision) (k : Nat) :
    (T.revise f).run k = T.revisedRun f k := by
  have hlen : T.runs.length = T.size + 1 := T.length_runs
  rw [run, revise, List.getD_eq_getElem?_getD, List.getElem?_mapIdx]
  rcases Nat.lt_or_ge T.size k with hk | hk
  · have hafter : T.revisedAt f k = none := revisedAt_eq_none_of_size_le (by omega)
    have hbefore : T.revisedBefore f k = none := revisedBefore_eq_none_of_size_le (by omega)
    rw [List.getElem?_eq_none (by omega), revisedRun, hafter, hbefore]
    exact (run_eq_nil hk).symm
  · rw [List.getElem?_eq_getElem (by omega)]
    rfl

theorem quote_revise (T : Quoted) (f : Revision) (k : Nat) :
    (T.revise f).quote k = T.revisedQuote f k := by
  have hlen : T.quotes.length = T.size := rfl
  rw [quote, revise, List.getD_eq_getElem?_getD, List.getElem?_mapIdx]
  rcases Nat.lt_or_ge k T.size with hk | hk
  · rw [List.getElem?_eq_getElem (by omega)]
    rfl
  · have hafter : T.revisedAt f k = none := revisedAt_eq_none_of_size_le (by omega)
    have hbefore : T.revisedBefore f k = none := revisedBefore_eq_none_of_size_le hk
    rw [List.getElem?_eq_none (by omega), revisedQuote, hafter, hbefore, quote,
      List.getD_eq_default _ _ (by omega)]
    rfl

theorem run_revise_of_before (h : T.revisedBefore f k = some c) : (T.revise f).run k = c.path := by
  rw [run_revise, revisedRun, h]

theorem run_revise_of_at (h : T.revisedAt f k = some c) : (T.revise f).run k = c.head := by
  rw [run_revise, revisedRun, revisedBefore_of_revisedAt h, h]

theorem run_revise_of_none (hbefore : T.revisedBefore f k = none) (hat : T.revisedAt f k = none) :
    (T.revise f).run k = T.run k := by
  rw [run_revise, revisedRun, hbefore, hat]

theorem quote_revise_of_none (hbefore : T.revisedBefore f k = none)
    (hat : T.revisedAt f k = none) : (T.revise f).quote k = T.quote k := by
  rw [quote_revise, revisedQuote, hbefore, hat]

/-- Where a clause is revised, the new text has the new clause. -/
theorem clauseAt_revise (h : T.revisedAt f k = some c) : (T.revise f).clauseAt k = c := by
  have hb := revisedBefore_of_revisedAt h
  have hb' : T.revisedBefore f (k + 1) = some c := h
  refine Clause.ext (run_revise_of_at h) ?_ (run_revise_of_before hb') ?_
  · exact (quote_revise T f k).trans (by rw [revisedQuote, hb, h])
  · exact (quote_revise T f (k + 1)).trans (by rw [revisedQuote, hb'])

/-- A clause that is not revised, and shares no run with one that is, stays as it is. -/
theorem clauseAt_revise_of_none (hbefore : T.revisedBefore f k = none)
    (hat : T.revisedAt f k = none) (hafter : T.revisedAt f (k + 1) = none) :
    (T.revise f).clauseAt k = T.clauseAt k := by
  have hpath : T.revisedBefore f (k + 1) = none := hat
  exact Clause.ext (run_revise_of_none hbefore hat) (quote_revise_of_none hbefore hat)
    (run_revise_of_none hpath hafter) (quote_revise_of_none hpath hafter)

/-- A revision that is for no clause of a text leaves it as it is. -/
theorem revise_eq_self (h : ∀ k, T.revisedAt f k = none) : T.revise f = T := by
  have hb : ∀ k, T.revisedBefore f k = none := fun k => by
    cases k with
    | zero => rfl
    | succ k => exact h k
  exact ext_of_forall (size_revise T f) (fun k => run_revise_of_none (hb k) (h k))
    fun k => quote_revise_of_none (hb k) (h k)

/-- To be for a clause and take it as it is changes nothing. -/
theorem revise_congr {g : Revision} (h : ∀ k, T.revisedAt f k = T.revisedAt g k ∨
    T.revisedAt f k = none ∧ T.revisedAt g k = some (T.clauseAt k)) : T.revise f = T.revise g := by
  have hb : ∀ k, T.revisedBefore f k = T.revisedBefore g k ∨ T.revisedBefore f k = none ∧
      ∃ j, k = j + 1 ∧ T.revisedAt g j = some (T.clauseAt j) := by
    intro k
    cases k with
    | zero => exact .inl rfl
    | succ j => exact (h j).imp_right fun hj => ⟨hj.1, j, rfl, hj.2⟩
  have key : ∀ k, T.revisedRun f k = T.revisedRun g k ∧
      T.revisedQuote f k = T.revisedQuote g k := by
    intro k
    simp only [revisedRun, revisedQuote]
    rcases hb k with hsame | ⟨hnone, j, rfl, hj⟩
    · rw [hsame]
      rcases h k with hat | ⟨hat, hkept⟩
      · rw [hat]
        exact ⟨rfl, rfl⟩
      · rw [hat, hkept]
        cases T.revisedBefore g k <;> exact ⟨rfl, rfl⟩
    · have hg : T.revisedAt g (j + 1) = none := revisedAt_succ hj
      have hf : T.revisedAt f (j + 1) = none := (h (j + 1)).elim (·.trans hg) (·.1)
      rw [hnone, hf, revisedBefore, hj]
      exact ⟨rfl, rfl⟩
  refine ext_of_forall (by simp) (fun k => ?_) fun k => ?_
  · rw [run_revise, run_revise, (key k).1]
  · rw [quote_revise, quote_revise, (key k).2]

/-! ### One revision after another -/

/-- Two revisions one after the other are one, if the second finds its clauses as they were, and the
path of a clause of the first is not the head of one of them. -/
theorem revise_revise {g h : Revision} (hg : ∀ k, (T.revise f).revisedAt g k = T.revisedAt g k)
    (hfg : ∀ k c, T.revisedAt f k = some c → T.revisedAt g (k + 1) = none)
    (hh : ∀ k, T.revisedAt h k = (T.revisedAt g k).or (T.revisedAt f k)) :
    (T.revise f).revise g = T.revise h := by
  have hg' : ∀ k, (T.revise f).revisedBefore g k = T.revisedBefore g k := by
    intro k
    cases k with
    | zero => rfl
    | succ k => exact hg k
  have hh' : ∀ k, T.revisedBefore h k = (T.revisedBefore g k).or (T.revisedBefore f k) := by
    intro k
    cases k with
    | zero => rfl
    | succ k => exact hh k
  have hnone : ∀ k c, T.revisedBefore f k = some c → T.revisedAt g k = none := by
    intro k c hb
    cases k with
    | zero => cases hb
    | succ k => exact hfg k c hb
  refine ext_of_forall (by simp) (fun k => ?_) fun k => ?_
  · rw [run_revise, run_revise, revisedRun, revisedRun, hg, hg', hh, hh', run_revise, revisedRun]
    cases hbg : T.revisedBefore g k with
    | some c => rfl
    | none =>
      cases hbf : T.revisedBefore f k with
      | some c => rw [hnone k c hbf]; rfl
      | none => cases T.revisedAt g k <;> rfl
  · rw [quote_revise, quote_revise, revisedQuote, revisedQuote, hg, hg', hh, hh', quote_revise,
      revisedQuote]
    cases hbg : T.revisedBefore g k with
    | some c => rfl
    | none =>
      cases hbf : T.revisedBefore f k with
      | some c => rw [hnone k c hbf]; rfl
      | none => cases T.revisedAt g k <;> rfl

/-! ### From one revised clause to the next -/

/-- Induction along a text, from its end: over a run that is no head of a revised clause together
with the quote after it, and over a revised clause as a whole. -/
theorem walk (T : Quoted) (f : Revision) {motive : Nat → Prop} (last : motive T.size)
    (pass : ∀ k, k < T.size → T.revisedAt f k = none → motive (k + 1) → motive k)
    (clause : ∀ k c, T.revisedAt f k = some c → motive (k + 2) → motive k) :
    ∀ k ≤ T.size, motive k := by
  have key : ∀ n k, T.size - k = n → k ≤ T.size → motive k := by
    intro n
    -- By the number of quotes that are left, as a clause takes two of them.
    induction n using Nat.strongRecOn with
    | ind n ih =>
      intro k hn hk
      rcases Nat.eq_or_lt_of_le hk with rfl | hlt
      · exact last
      cases hat : T.revisedAt f k with
      | none => exact pass k hlt hat (ih (T.size - (k + 1)) (by omega) (k + 1) rfl hlt)
      | some c =>
        have hlt2 := lt_size_of_revisedAt hat
        exact clause k c hat (ih (T.size - (k + 2)) (by omega) (k + 2) rfl hlt2)
  exact fun k hk => key _ k rfl hk

theorem textFrom_revise_size (hbefore : T.revisedBefore f T.size = none) :
    (T.revise f).textFrom T.size = T.run T.size := by
  have h := textFrom_size (T.revise f)
  rw [size_revise] at h
  rw [h, run_revise_of_none hbefore (revisedAt_eq_none_of_size_le (Nat.le_succ _))]

theorem textFrom_revise_over (hk : k < T.size) (hbefore : T.revisedBefore f k = none)
    (hat : T.revisedAt f k = none) :
    (T.revise f).textFrom k = T.run k ++ T.quote k :: (T.revise f).textFrom (k + 1) := by
  rw [textFrom_of_lt (by rwa [size_revise]), run_revise_of_none hbefore hat,
    quote_revise_of_none hbefore hat]

theorem textFrom_revise_clause (hat : T.revisedAt f k = some c) :
    (T.revise f).textFrom k = c.text ++ (T.revise f).textFrom (k + 2) := by
  have hlt := lt_size_of_revisedAt hat
  rw [textFrom_eq_clauseAt (by rwa [size_revise]), clauseAt_revise hat]

end

end Quoted

end ImportSuffix
