import ImportSuffix.Proofs.SuffixRules

/-!
# The two suffix rules in a row

The second rule runs on what the first one made, so its clauses need not be those of the original
text. They nearly are. A clause of its own does not become a statement when it is stripped, and a
statement is left as it is; so the second rule finds the statements of the text. One thing is new:
a path that ends in `from`, white space and the suffix becomes the head of another clause when it
loses the suffix (`of_readingAt?_revise_ownClauses`). Where no path ends so, both rules together
strip every clause of the text independently (`revise_ownClauses_statements`).
-/

namespace ImportSuffix

open Text

namespace Quoted

/-- How the clause is read that begins with the run of that number, if the text has it. -/
def readingAt? (T : Quoted) (k : Nat) : Option Reading :=
  if k + 1 < T.size then (T.clauseAt k).reading? else none

variable {T : Quoted} {k : Nat} {r : Reading} {before stem stem' lead between : List Char}

theorem lt_size_of_readingAt? (h : T.readingAt? k = some r) : k + 1 < T.size := by
  unfold readingAt? at h
  split at h
  · assumption
  · cases h

theorem reading?_of_readingAt? (h : T.readingAt? k = some r) :
    (T.clauseAt k).reading? = some r := by
  rwa [readingAt?, if_pos (lt_size_of_readingAt? h)] at h

theorem exists_readingAt?_iff : (∃ r, T.readingAt? k = some r) ↔
    k + 1 < T.size ∧ EndsInFrom (T.run k) ∧ ".js".toList <:+ T.run (k + 1) := by
  constructor
  · rintro ⟨r, h⟩
    exact ⟨lt_size_of_readingAt? h, Clause.exists_reading?_iff.1 ⟨r, reading?_of_readingAt? h⟩⟩
  · rintro ⟨hlt, h⟩
    rw [readingAt?, if_pos hlt]
    exact Clause.exists_reading?_iff.2 h

theorem path_of_readingAt?_own (h : T.readingAt? k = some (.own before stem)) :
    T.run (k + 1) = stem ++ ".js".toList :=
  Clause.path_of_own (reading?_of_readingAt? h)

/-- The path of a clause of its own becomes the head of a clause only if `from` and white space
stand before the suffix. -/
theorem not_endsInFrom_of_own (h : T.readingAt? k = some (.own before stem))
    (hpath : ¬ EndsInFromSuffix (T.run (k + 1))) : ¬ EndsInFrom stem := by
  rwa [path_of_readingAt?_own h, endsInFromSuffix_append] at hpath

section

variable {make : Clause → Reading → Option Clause}
  {hmake : ∀ c c' r, c.reading? = some r → make c r = some c' → c.StrippedTo c'}

theorem revisedAt_byReading : T.revisedAt (Revision.byReading make hmake) k =
    (T.readingAt? k).bind (make (T.clauseAt k)) := by
  rw [revisedAt, readingAt?]
  split
  · rfl
  · rfl

end

theorem revisedAt_ownClauses_eq_none :
    T.revisedAt .ownClauses k = none ↔ T.readingAt? k = none := by
  rw [Revision.ownClauses, revisedAt_byReading]
  rcases T.readingAt? k with _ | ⟨before, stem⟩ | ⟨lead, between, stem⟩ <;> simp

theorem revisedAt_ownClauses_own (h : T.readingAt? k = some (.own before stem)) :
    T.revisedAt .ownClauses k = some ((T.clauseAt k).strippedOwn before stem) := by
  rw [Revision.ownClauses, revisedAt_byReading, h]
  rfl

theorem revisedAt_ownClauses_statement (h : T.readingAt? k = some (.statement lead between stem)) :
    T.revisedAt .ownClauses k = some (T.clauseAt k) := by
  rw [Revision.ownClauses, revisedAt_byReading, h]
  rfl

/-- The new clause of a statement depends on its reading alone. -/
theorem revisedAt_statements : T.revisedAt .statements k = (T.readingAt? k).bind fun r =>
    match r with
    | .own _ _ => none
    | .statement lead between stem => some (Clause.strippedStatement lead between stem) := by
  rw [Revision.statements]
  exact revisedAt_byReading

theorem revisedAt_stripping : T.revisedAt .stripping k =
    (T.revisedAt .statements k).or (T.revisedAt .ownClauses k) := by
  rw [Revision.stripping, Revision.statements, Revision.ownClauses, revisedAt_byReading,
    revisedAt_byReading, revisedAt_byReading]
  rcases T.readingAt? k with _ | ⟨before, stem⟩ | ⟨lead, between, stem⟩ <;> rfl

theorem revisedAt_stripping_eq_none : T.revisedAt .stripping k = none ↔ T.readingAt? k = none := by
  rw [Revision.stripping, revisedAt_byReading]
  rcases T.readingAt? k with _ | ⟨before, stem⟩ | ⟨lead, between, stem⟩ <;> simp

theorem exists_readingAt?_of_revisedAt_stripping {c : Clause}
    (h : T.revisedAt .stripping k = some c) : ∃ r, T.readingAt? k = some r := by
  refine Option.ne_none_iff_exists'.1 fun hnone => ?_
  rw [revisedAt_stripping_eq_none.2 hnone] at h
  cases h

/-- Stripping takes the suffix from every path that it is for. -/
theorem path_of_revisedAt_stripping {c : Clause} (h : T.revisedAt .stripping k = some c) :
    T.run (k + 1) = c.path ++ ".js".toList := by
  rw [Revision.stripping, revisedAt_byReading] at h
  obtain ⟨r, hr, hmake⟩ := Option.bind_eq_some_iff.1 h
  cases r with
  | own before stem =>
    obtain rfl := Option.some.inj hmake
    exact Clause.path_of_own (reading?_of_readingAt? hr)
  | statement lead between stem =>
    obtain rfl := Option.some.inj hmake
    exact Clause.path_of_statement (reading?_of_readingAt? hr)

/-! ### The text after the first rule -/

theorem readingAt?_revise_of_own (h : T.readingAt? k = some (.own before stem)) :
    (T.revise .ownClauses).readingAt? k ≠ some (.statement lead between stem') := by
  intro hst
  have hclause := clauseAt_revise (revisedAt_ownClauses_own h)
  have hreading := reading?_of_readingAt? hst
  rw [hclause] at hreading
  obtain ⟨before', hbefore', -, hst'⟩ := Clause.reading?_eq_statement.1 hreading
  have hbefore := Clause.beforeFrom?_strippedOwn (reading?_of_readingAt? h)
  obtain rfl : before = before' := Option.some.inj (hbefore.symm.trans hbefore')
  rw [(Clause.reading?_eq_own.1 (reading?_of_readingAt? h)).2.2] at hst'
  cases hst'

theorem readingAt?_revise_of_statement
    (h : T.readingAt? k = some (.statement lead between stem)) :
    (T.revise .ownClauses).readingAt? k = some (.statement lead between stem) := by
  have hlt := lt_size_of_readingAt? h
  rw [readingAt?, size_revise, if_pos hlt, clauseAt_revise (revisedAt_ownClauses_statement h)]
  exact reading?_of_readingAt? h

/-- A run that ends in the suffix, and is not the path of a clause, is not changed. -/
theorem run_revise_of_suffix {f : Revision} (hf : f.Strips) (hbefore : T.revisedBefore f k = none)
    (hsuffix : ".js".toList <:+ (T.revise f).run k) : (T.revise f).run k = T.run k := by
  cases hat : T.revisedAt f k with
  | none => exact run_revise_of_none hbefore hat
  | some c =>
    rw [run_revise_of_at hat] at hsuffix
    exact absurd (hf (revise?_of_revisedAt hat)).endsInFrom (not_endsInFrom_of_suffix hsuffix)

theorem revisedAt_eq_none_of_readingAt? {f : Revision} (hf : f.Strips)
    (h : T.readingAt? k = none) : T.revisedAt f k = none := by
  rw [Option.eq_none_iff_forall_ne_some]
  intro c hc
  obtain ⟨r, hr⟩ := (hf (revise?_of_revisedAt hc)).exists_reading?
  rw [readingAt?, if_pos (lt_size_of_revisedAt hc), hr] at h
  cases h

/-- The head of a clause with the suffix is not the path of a revised one. -/
theorem revisedBefore_eq_none_of_readingAt? {f : Revision} (hf : f.Strips)
    (h : T.readingAt? k = some r) : T.revisedBefore f k = none := by
  cases k with
  | zero => rfl
  | succ j =>
    rw [revisedBefore, Option.eq_none_iff_forall_ne_some]
    intro c hc
    obtain ⟨r', hr'⟩ := (hf (revise?_of_revisedAt hc)).exists_reading?
    have hnone := Clause.reading?_of_head_eq (d := T.clauseAt (j + 1)) hr' rfl
    rw [reading?_of_readingAt? h] at hnone
    cases hnone

/-- The path of a clause with the suffix is not the head of a revised one. -/
theorem revisedAt_succ_eq_none_of_readingAt? {f : Revision} (hf : f.Strips)
    (h : T.readingAt? k = some r) : T.revisedAt f (k + 1) = none := by
  refine revisedAt_eq_none_of_readingAt? hf ?_
  rw [readingAt?, Clause.reading?_of_head_eq (reading?_of_readingAt? h) rfl, ite_self]

/-- What is left of a path becomes the head of a clause only if `from` and white space stand before
the suffix. -/
theorem not_endsInFrom_of_revisedAt {f : Revision} {c : Clause} (hf : f.Strips)
    (h : T.revisedAt f k = some c) (hpath : ¬ EndsInFromSuffix (T.run (k + 1))) :
    ¬ EndsInFrom c.path := by
  have hstripped := hf (revise?_of_revisedAt h)
  obtain ⟨r, hr⟩ := hstripped.exists_reading?
  rcases hstripped.path with hsame | hstrip
  · rw [hsame]
    exact not_endsInFrom_of_suffix (Clause.exists_reading?_iff.1 ⟨r, hr⟩).2
  · intro hfrom
    refine hpath ?_
    rw [show T.run (k + 1) = c.path ++ ".js".toList from hstrip]
    exact endsInFromSuffix_append.2 hfrom

/-- A new clause has as its head what is left of the path of a revised one. -/
theorem exists_revisedBefore_of_readingAt? {f : Revision} (hf : f.Strips)
    (h : T.readingAt? k = none) (hr : (T.revise f).readingAt? k = some r) :
    ∃ c, T.revisedBefore f k = some c ∧ EndsInFrom c.path := by
  have hat : T.revisedAt f k = none := revisedAt_eq_none_of_readingAt? hf h
  obtain ⟨hlt, hfrom, hsuffix⟩ := exists_readingAt?_iff.1 ⟨r, hr⟩
  rw [size_revise] at hlt
  have hpath : (T.revise f).run (k + 1) = T.run (k + 1) := run_revise_of_suffix hf hat hsuffix
  cases hb : T.revisedBefore f k with
  | some c =>
    rw [run_revise_of_before hb] at hfrom
    exact ⟨c, rfl, hfrom⟩
  | none =>
    -- Neither its head nor its path has changed, so it would have been a clause before.
    rw [run_revise_of_none hb hat] at hfrom
    rw [hpath] at hsuffix
    obtain ⟨r', hr'⟩ := exists_readingAt?_iff.2 ⟨hlt, hfrom, hsuffix⟩
    rw [h] at hr'
    cases hr'

/-- A new clause has as its head what was the path of a clause of its own. -/
theorem of_readingAt?_revise_ownClauses (h : T.readingAt? k = none)
    (hr : (T.revise .ownClauses).readingAt? k = some r) :
    ∃ j before stem, k = j + 1 ∧ T.readingAt? j = some (.own before stem) ∧ EndsInFrom stem := by
  obtain ⟨c, hc, hfrom⟩ := exists_revisedBefore_of_readingAt? Revision.strips_ownClauses h hr
  cases k with
  | zero => cases hc
  | succ j =>
    rw [revisedBefore] at hc
    rcases hj : T.readingAt? j with _ | ⟨before, stem⟩ | ⟨lead, between, stem⟩
    · rw [revisedAt_ownClauses_eq_none.2 hj] at hc
      cases hc
    · rw [revisedAt_ownClauses_own hj] at hc
      obtain rfl := Option.some.inj hc
      exact ⟨j, before, stem, rfl, hj, hfrom⟩
    -- A statement keeps its path, and with it the suffix.
    · rw [revisedAt_ownClauses_statement hj] at hc
      obtain rfl := Option.some.inj hc
      have hjs := Clause.path_of_statement (reading?_of_readingAt? hj)
      exact absurd hfrom (not_endsInFrom_of_suffix ⟨stem, hjs.symm⟩)

/-- The second rule finds the statements of the text, wherever the first one changes nothing that
could make a new clause. -/
theorem revisedAt_statements_revise
    (hclear : ∀ j before stem, T.readingAt? j = some (.own before stem) → ¬ EndsInFrom stem) :
    (T.revise .ownClauses).revisedAt .statements k = T.revisedAt .statements k := by
  rw [revisedAt_statements, revisedAt_statements]
  cases h : T.readingAt? k with
  | none =>
    cases hr : (T.revise .ownClauses).readingAt? k with
    | none => rfl
    | some r =>
      obtain ⟨j, before, stem, -, hj, hfrom⟩ := of_readingAt?_revise_ownClauses h hr
      exact absurd hfrom (hclear j before stem hj)
  | some r =>
    cases r with
    | own before stem =>
      rcases hr : (T.revise .ownClauses).readingAt? k with _ | ⟨before', stem'⟩ | ⟨l, b, stem'⟩
      · rfl
      · rfl
      · exact absurd hr (readingAt?_revise_of_own h)
    | statement lead between stem => rw [readingAt?_revise_of_statement h]

theorem revise_ownClauses_statements
    (hclear : ∀ j before stem, T.readingAt? j = some (.own before stem) → ¬ EndsInFrom stem) :
    (T.revise .ownClauses).revise .statements = T.revise .stripping := by
  refine revise_revise (fun k => revisedAt_statements_revise hclear) (fun k c hc => ?_)
    fun k => revisedAt_stripping
  rw [revisedAt_statements, revisedAt_ownClauses_eq_none.1 (revisedAt_succ hc)]
  rfl

/-! ### What is kept of a run -/

/-- A revision that strips clauses takes no more than white space from a run, or else the suffix
from a path. -/
theorem squeeze_run_revise {f : Revision} (hf : f.Strips) (T : Quoted) (k : Nat) :
    squeeze ((T.revise f).run k) = squeeze (T.run k) ∨
      ∃ c, T.revisedBefore f k = some c ∧ T.run k = (T.revise f).run k ++ ".js".toList := by
  cases hb : T.revisedBefore f k with
  | some c =>
    rw [run_revise_of_before hb]
    cases k with
    | zero => cases hb
    | succ k =>
      rcases (hf (revise?_of_revisedAt hb)).path with hpath | hpath
      · exact .inl (congrArg squeeze hpath)
      · exact .inr ⟨c, rfl, hpath⟩
  | none =>
    refine .inl ?_
    cases hat : T.revisedAt f k with
    | some c =>
      rw [run_revise_of_at hat]
      exact (hf (revise?_of_revisedAt hat)).squeeze_head
    | none => rw [run_revise_of_none hb hat]

/-- The paths that the second rule strips are as they were in the text. -/
theorem run_revise_of_revisedBefore_statements {c : Clause}
    (h : (T.revise .ownClauses).revisedBefore .statements k = some c) :
    (T.revise .ownClauses).run k = T.run k := by
  cases k with
  | zero => cases h
  | succ j =>
    rw [revisedBefore, revisedAt_statements] at h
    obtain ⟨r, hr, hmake⟩ := Option.bind_eq_some_iff.1 h
    -- If the first rule had stripped the clause, the second one would not be for it.
    rcases hj : T.readingAt? j with _ | ⟨before, stem⟩ | ⟨lead, between, stem⟩
    · have hsuffix := (exists_readingAt?_iff.1 ⟨r, hr⟩).2.2
      exact run_revise_of_suffix Revision.strips_ownClauses (revisedAt_ownClauses_eq_none.2 hj)
        hsuffix
    · cases r with
      | own before' stem' => cases hmake
      | statement lead between stem' => exact absurd hr (readingAt?_revise_of_own hj)
    · have hb : T.revisedBefore .ownClauses (j + 1) = some (T.clauseAt j) :=
        revisedAt_ownClauses_statement hj
      exact run_revise_of_before hb

/-- That a text has as many quotes as another, and in each run the same characters up to white
space, or those of a run between two quotes without one suffix at its end. -/
structure LosesOnlySuffix (T T' : Quoted) : Prop where
  size : T'.size = T.size
  run : ∀ k, squeeze (T'.run k) = squeeze (T.run k) ∨
    0 < k ∧ k < T.size ∧ ∃ v, T.run k = v ++ ".js".toList ∧ squeeze (T'.run k) = squeeze v

namespace LosesOnlySuffix

variable {T' : Quoted}

theorem first (h : T.LosesOnlySuffix T') : squeeze (T'.run 0) = squeeze (T.run 0) := by
  rcases h.run 0 with hsame | ⟨hpos, -⟩
  · exact hsame
  · exact absurd hpos (Nat.lt_irrefl 0)

theorem last (h : T.LosesOnlySuffix T') : squeeze (T'.run T.size) = squeeze (T.run T.size) := by
  rcases h.run T.size with hsame | ⟨-, hlt, -⟩
  · exact hsame
  · exact absurd hlt (Nat.lt_irrefl T.size)

theorem kept (h : T.LosesOnlySuffix T') (k : Nat) : squeeze (T'.run k) <+: squeeze (T.run k) := by
  rcases h.run k with hsame | ⟨-, -, v, hv, hsame⟩
  · exact ⟨[], by rw [List.append_nil, hsame]⟩
  · rw [hsame, hv, squeeze_append]
    exact List.prefix_append _ _

/-- A character that is neither white space nor in the suffix is as frequent as before. -/
theorem count (h : T.LosesOnlySuffix T') (k : Nat) (c : Char) (hblank : isBlank c = false)
    (hsuffix : c ∉ ".js".toList) : (T'.run k).count c = (T.run k).count c := by
  rw [← count_squeeze hblank (T'.run k)]
  rcases h.run k with hsame | ⟨-, -, v, hv, hsame⟩
  · rw [hsame, count_squeeze hblank]
  · rw [hsame, hv, count_squeeze hblank, List.count_append,
      List.count_eq_zero_of_not_mem hsuffix, Nat.add_zero]

end LosesOnlySuffix

/-- Both rules together take no more than white space from a run, or else one suffix from a run
between two quotes. -/
theorem losesOnlySuffix_revise_revise (T : Quoted) :
    T.LosesOnlySuffix ((T.revise .ownClauses).revise .statements) where
  size := by rw [size_revise, size_revise]
  run := by
    intro k
    rcases squeeze_run_revise Revision.strips_ownClauses T k with hfirst | ⟨c, hc, hfirst⟩
    · rcases squeeze_run_revise Revision.strips_statements (T.revise .ownClauses) k with
        hsecond | ⟨c', hc', hsecond⟩
      · exact .inl (hsecond.trans hfirst)
      · obtain ⟨hpos, hlt⟩ := lt_size_of_revisedBefore hc'
        rw [size_revise] at hlt
        rw [run_revise_of_revisedBefore_statements hc'] at hsecond
        exact .inr ⟨hpos, hlt, _, hsecond, rfl⟩
    · obtain ⟨hpos, hlt⟩ := lt_size_of_revisedBefore hc
      refine .inr ⟨hpos, hlt, _, hfirst, ?_⟩
      rcases squeeze_run_revise Revision.strips_statements (T.revise .ownClauses) k with
        hsecond | ⟨c', hc', -⟩
      · exact hsecond
      · -- The suffix is not taken twice: the second rule would have to strip the path as it was.
        rw [run_revise_of_revisedBefore_statements hc'] at hfirst
        have hlen := congrArg List.length hfirst
        rw [List.length_append] at hlen
        exact absurd hlen (Nat.ne_of_lt (Nat.lt_add_of_pos_right (by decide)))

end Quoted

namespace Rule

open Quoted (ofText)

/-! ### Both rules -/

/-- Where no run between two quotes ends in `from`, white space and the suffix, the rules strip all
clauses with the suffix, each of them independently of the others. -/
theorem toList_applyRules_suffixRules {t : String}
    (h : ∀ k < (ofText t.toList).size, 0 < k →
      ¬ EndsInFromSuffix ((ofText t.toList).run k)) :
    (applyRules suffixRules t).toList = ((ofText t.toList).revise .stripping).text := by
  have hclear : ∀ j before stem,
      (ofText t.toList).readingAt? j = some (.own before stem) → ¬ EndsInFrom stem := by
    intro j before stem hj
    exact Quoted.not_endsInFrom_of_own hj
      (h (j + 1) (Quoted.lt_size_of_readingAt? hj) (Nat.succ_pos j))
  rw [← Quoted.revise_ownClauses_statements hclear, ← ofText_applyRules, Quoted.text_ofText]

/-- A statement with double quotes and a clause of its own. -/
theorem toList_applyRules_suffixRules_two_clauses :
    (applyRules suffixRules "import a from \"./a.js\";\nexport * from  \"./b.js\";\n").toList =
      "import a from './a';\nexport * from \"./b\";\n".toList :=
  (toList_applyRules_suffixRules (by decide +kernel)).trans (by decide +kernel)

/-- On any text the rules keep the number of quotes, and of every run its characters in their order
up to white space, but for one suffix at the end of a run between two quotes. So the first and the
last run lose nothing but white space, and of a character that is not in the suffix each run has as
many as before. -/
theorem losesOnlySuffix_applyRules_suffixRules (t : String) :
    (ofText t.toList).LosesOnlySuffix (ofText (applyRules suffixRules t).toList) ∧
      squeeze ((ofText (applyRules suffixRules t).toList).run 0) =
        squeeze ((ofText t.toList).run 0) ∧
      squeeze ((ofText (applyRules suffixRules t).toList).run (ofText t.toList).size) =
        squeeze ((ofText t.toList).run (ofText t.toList).size) ∧
      (∀ k, squeeze ((ofText (applyRules suffixRules t).toList).run k) <+:
        squeeze ((ofText t.toList).run k)) ∧
      ∀ k c, isBlank c = false → c ∉ ".js".toList →
        ((ofText (applyRules suffixRules t).toList).run k).count c =
          ((ofText t.toList).run k).count c := by
  have h : (ofText t.toList).LosesOnlySuffix (ofText (applyRules suffixRules t).toList) := by
    rw [ofText_applyRules]
    exact Quoted.losesOnlySuffix_revise_revise _
  exact ⟨h, h.first, h.last, h.kept, h.count⟩

end Rule

end ImportSuffix
