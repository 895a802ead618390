import ImportSuffix.Proofs.ClauseCount
import Mathlib.Algebra.BigOperators.Ring.Finset
import Mathlib.Algebra.Order.BigOperators.Group.Finset
import Mathlib.Logic.Function.Iterate

/-!
# When the suffix rules have nothing left to do

The rules change a text exactly if it has a clause with the suffix, and then make it shorter by two
characters or more for each of them (`length_applyRules_suffixRules`). So they cannot go on for
ever: after half as many passes as a text has characters there is no clause
(`exists_clauseCount_iterate`).

One pass is enough where no path of a clause ends in two suffixes, nor in `from`, white space and
the suffix. These are the only two ways in which stripping leaves something to strip: what is left
of the path has the suffix again, or is the head of another clause (`readingAt?_revise_stripping`).
-/

namespace ImportSuffix

open Text

namespace Quoted

variable {T : Quoted} {k : Nat}

/-! ### Where there are no clauses -/

/-- Both rules leave a text without clauses as it is. -/
theorem revise_revise_eq_self (h : ∀ k, T.readingAt? k = none) :
    (T.revise .ownClauses).revise .statements = T := by
  have hfirst : T.revise .ownClauses = T :=
    revise_eq_self fun k => revisedAt_ownClauses_eq_none.2 (h k)
  rw [hfirst]
  refine revise_eq_self fun k => ?_
  rw [revisedAt_statements, h k]
  rfl

/-! ### Lengths -/

/-- What the first rule takes away at least. -/
def ownLoss (c : Clause) : Nat :=
  match c.reading? with
  | some (.own _ _) => 2
  | _ => 0

theorem length_add_ownLoss {c c' : Clause} (h : Revision.ownClauses.revise? c = some c') :
    c'.text.length + ownLoss c ≤ c.text.length := by
  rw [ownLoss]
  rcases hr : c.reading? with _ | ⟨before, stem⟩ | ⟨lead, between, stem⟩
  · simp [Revision.ownClauses, Revision.byReading, hr] at h
  · rw [Revision.ownClauses_own hr] at h
    obtain rfl := Option.some.inj h
    exact Nat.le_of_succ_le (Clause.length_strippedOwn hr)
  · rw [Revision.ownClauses_statement hr] at h
    obtain rfl := Option.some.inj h
    exact Nat.le_refl _

theorem length_add_two {c c' : Clause} (h : Revision.statements.revise? c = some c') :
    c'.text.length + 2 ≤ c.text.length := by
  rcases hr : c.reading? with _ | ⟨before, stem⟩ | ⟨lead, between, stem⟩
  · simp [Revision.statements, Revision.byReading, hr] at h
  · rw [Revision.statements_own hr] at h
    cases h
  · rw [Revision.statements_statement hr] at h
    obtain rfl := Option.some.inj h
    exact Clause.length_strippedStatement hr

/-- Each clause of a text is stripped by one of the two rules. -/
theorem two_mul_siteAt_le (T : Quoted) (k : Nat) :
    2 * T.siteAt k ≤ (T.revise .ownClauses).lossAt .statements (fun _ => 2) k +
      T.lossAt .ownClauses ownLoss k := by
  rcases hr : T.readingAt? k with _ | ⟨before, stem⟩ | ⟨lead, between, stem⟩
  · rw [siteAt_of_none hr]
    exact Nat.zero_le _
  · rw [siteAt_of_some hr, lossAt_of_some (revisedAt_ownClauses_own hr), ownLoss,
      reading?_of_readingAt? hr]
    exact Nat.le_add_left _ _
  · have hat : (T.revise .ownClauses).revisedAt .statements k =
        some (Clause.strippedStatement lead between stem) := by
      rw [revisedAt_statements, readingAt?_revise_of_statement hr]
      rfl
    rw [siteAt_of_some hr, lossAt_of_some hat]
    exact Nat.le_add_right _ _

theorem length_revise_revise_le (T : Quoted) :
    ((T.revise .ownClauses).revise .statements).text.length +
      2 * ∑ k ∈ Finset.range T.size, T.siteAt k ≤ T.text.length := by
  have hfirst := length_revise_le (fun _ _ => length_add_ownLoss) T
  have hsecond := length_revise_le (fun _ _ => length_add_two) (T.revise .ownClauses)
  -- The sum of what the rules take away, each from its own clauses.
  have hsum : 2 * ∑ k ∈ Finset.range T.size, T.siteAt k ≤
      ∑ k ∈ Finset.range T.size, (T.revise .ownClauses).lossAt .statements (fun _ => 2) k +
        ∑ k ∈ Finset.range T.size, T.lossAt .ownClauses ownLoss k := by
    rw [Finset.mul_sum, ← Finset.sum_add_distrib]
    exact Finset.sum_le_sum fun k _ => T.two_mul_siteAt_le k
  rw [size_revise] at hsecond
  omega

/-! ### What stripping leaves -/

/-- No clause is left if no path of one ends in two suffixes or becomes the head of another. -/
theorem readingAt?_revise_stripping
    (h : ∀ k, k + 1 < T.size → EndsInFrom (T.run k) →
      ¬ ".js.js".toList <:+ T.run (k + 1) ∧ ¬ EndsInFromSuffix (T.run (k + 1))) :
    (T.revise .stripping).readingAt? k = none := by
  rw [Option.eq_none_iff_forall_ne_some]
  intro r hr
  obtain ⟨hlt, -, hsuffix⟩ := exists_readingAt?_iff.1 ⟨r, hr⟩
  rw [size_revise] at hlt
  cases hat : T.revisedAt .stripping k with
  | some c =>
    -- The path has been stripped, so it had the suffix twice.
    have hbefore : T.revisedBefore .stripping (k + 1) = some c := hat
    rw [run_revise_of_before hbefore] at hsuffix
    obtain ⟨s, hs⟩ := hsuffix
    obtain ⟨r', hr'⟩ := exists_readingAt?_of_revisedAt_stripping hat
    refine (h k hlt (exists_readingAt?_iff.1 ⟨r', hr'⟩).2.1).1 ⟨s, ?_⟩
    rw [path_of_revisedAt_stripping hat, ← hs, List.append_assoc]
    rfl
  | none =>
    -- The head was the path of a clause that has been stripped.
    obtain ⟨c, hb, hhead⟩ := exists_revisedBefore_of_readingAt? Revision.strips_stripping
      (revisedAt_stripping_eq_none.1 hat) hr
    cases k with
    | zero => cases hb
    | succ j =>
      obtain ⟨r', hr'⟩ := exists_readingAt?_of_revisedAt_stripping hb
      obtain ⟨hlt', hfrom', -⟩ := exists_readingAt?_iff.1 ⟨r', hr'⟩
      refine (h j hlt' hfrom').2 ?_
      rw [path_of_revisedAt_stripping hb]
      exact endsInFromSuffix_append.2 hhead

end Quoted

namespace Rule

open Quoted (ofText)

theorem toList_applyRules (t : String) : (applyRules suffixRules t).toList =
    (((ofText t.toList).revise .ownClauses).revise .statements).text := by
  rw [← ofText_applyRules, Quoted.text_ofText]

theorem length_applyRules_suffixRules (t : String) :
    (applyRules suffixRules t).length + 2 * clauseCount t.toList ≤ t.length := by
  rw [← String.length_toList, ← String.length_toList, toList_applyRules, Quoted.clauseCount_eq_sum]
  have h := (ofText t.toList).length_revise_revise_le
  rwa [Quoted.text_ofText] at h

theorem applyRules_suffixRules_of_clauseCount {t : String} (h : clauseCount t.toList = 0) :
    applyRules suffixRules t = t := by
  rw [← String.toList_inj, toList_applyRules,
    Quoted.revise_revise_eq_self (Quoted.clauseCount_eq_zero_iff.1 h), Quoted.text_ofText]

/-- Half as many passes as a text has characters leave no clause. -/
theorem exists_clauseCount_iterate (t : String) : ∃ n ≤ t.length / 2,
    clauseCount ((applyRules suffixRules)^[n] t).toList = 0 := by
  -- Every pass but the last one takes two characters at least.
  induction hlen : t.length using Nat.strongRecOn generalizing t with
  | ind l ih =>
    cases hcount : clauseCount t.toList with
    | zero => exact ⟨0, Nat.zero_le _, hcount⟩
    | succ m =>
      have hle := length_applyRules_suffixRules t
      obtain ⟨n, hn, hzero⟩ := ih _ (by omega) (applyRules suffixRules t) rfl
      exact ⟨n + 1, by omega, by rwa [Function.iterate_succ_apply]⟩

/-- A pass takes two characters at least for each clause and changes nothing exactly if there is
none; and after at most half as many passes as the text has characters there is none. -/
theorem applyRules_suffixRules_converges (t : String) :
    (applyRules suffixRules t).length + 2 * clauseCount t.toList ≤ t.length ∧
      (applyRules suffixRules t = t ↔ clauseCount t.toList = 0) ∧
      ∃ n ≤ t.length / 2, clauseCount ((applyRules suffixRules)^[n] t).toList = 0 ∧
        ∀ m, (applyRules suffixRules)^[m] ((applyRules suffixRules)^[n] t) =
          (applyRules suffixRules)^[n] t := by
  have hlen := length_applyRules_suffixRules t
  refine ⟨hlen, ⟨fun hsame => ?_, applyRules_suffixRules_of_clauseCount⟩, ?_⟩
  · rw [hsame] at hlen
    omega
  · obtain ⟨n, hn, hzero⟩ := exists_clauseCount_iterate t
    refine ⟨n, hn, hzero, fun m => ?_⟩
    exact Function.iterate_fixed (applyRules_suffixRules_of_clauseCount hzero) m

/-- One pass leaves no clause in a text where no path of one ends in two suffixes, nor in `from`,
white space and the suffix. -/
theorem clauseCount_applyRules_suffixRules {t : String}
    (h : ∀ k, k + 1 < (ofText t.toList).size → EndsInFrom ((ofText t.toList).run k) →
      ¬ ".js.js".toList <:+ (ofText t.toList).run (k + 1) ∧
        ¬ EndsInFromSuffix ((ofText t.toList).run (k + 1))) :
    clauseCount (applyRules suffixRules t).toList = 0 := by
  have hclear : ∀ j before stem,
      (ofText t.toList).readingAt? j = some (.own before stem) → ¬ EndsInFrom stem := by
    intro j before stem hj
    obtain ⟨hlt, hhead, -⟩ := Quoted.exists_readingAt?_iff.1 ⟨_, hj⟩
    exact Quoted.not_endsInFrom_of_own hj (h j hlt hhead).2
  rw [Quoted.clauseCount_eq_zero_iff, ofText_applyRules, Quoted.revise_ownClauses_statements hclear]
  exact fun k => Quoted.readingAt?_revise_stripping h

/-- One pass is enough for a text where no path of a clause ends in two suffixes, nor in `from`,
white space and the suffix. -/
theorem applyRules_suffixRules_idempotent {t : String}
    (h : ∀ k, k + 1 < (ofText t.toList).size → EndsInFrom ((ofText t.toList).run k) →
      ¬ ".js.js".toList <:+ (ofText t.toList).run (k + 1) ∧
        ¬ EndsInFromSuffix ((ofText t.toList).run (k + 1))) :
    applyRules suffixRules (applyRules suffixRules t) = applyRules suffixRules t ∧
      clauseCount (applyRules suffixRules t).toList = 0 := by
  have hcount := clauseCount_applyRules_suffixRules h
  exact ⟨applyRules_suffixRules_of_clauseCount hcount, hcount⟩

/-- A statement and a clause of its own. -/
theorem applyRules_suffixRules_idempotent_two_clauses :
    applyRules suffixRules (applyRules suffixRules "import a from \"a.js\"\nexport * from 'b.js'") =
        applyRules suffixRules "import a from \"a.js\"\nexport * from 'b.js'" ∧
      clauseCount
        (applyRules suffixRules "import a from \"a.js\"\nexport * from 'b.js'").toList = 0 := by
  refine applyRules_suffixRules_idempotent fun k hk => ?_
  have hsize : (ofText "import a from \"a.js\"\nexport * from 'b.js'".toList).size = 4 := by
    decide +kernel
  have hruns : ∀ k < 4,
      EndsInFrom ((ofText "import a from \"a.js\"\nexport * from 'b.js'".toList).run k) →
        ¬ ".js.js".toList <:+
          (ofText "import a from \"a.js\"\nexport * from 'b.js'".toList).run (k + 1) ∧
        ¬ EndsInFromSuffix
          ((ofText "import a from \"a.js\"\nexport * from 'b.js'".toList).run (k + 1)) := by
    decide +kernel
  rw [hsize] at hk
  exact hruns k (Nat.lt_of_succ_lt hk)

end Rule

end ImportSuffix
