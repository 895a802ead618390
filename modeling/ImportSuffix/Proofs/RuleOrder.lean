import ImportSuffix.Proofs.SuffixRewrite

/-!
# The order of the suffix rules

Where no run between two quotes ends in `from`, white space and the suffix, it does not matter which
of the two rules comes first. A statement that has been stripped is still a statement, if it is a
clause with the suffix at all (`Clause.reading?_strippedStatement_ne_own`), and no new clauses
arise. So after the rule for statements the other one finds the clauses of their own that were there
before (`Quoted.revisedAt_ownOnly_revise`), and both orders are the one revision
`Revision.stripping`.
-/

namespace ImportSuffix

open Text

namespace Clause

variable {c : Clause} {lead between stem : List Char}

/-- What stands before the `from` of a stripped statement. -/
theorem beforeFrom?_strippedStatement : beforeFrom? (strippedStatement lead between stem).head =
    some (lead ++ "import".toList ++ (" ".toList ++ clauseIn between ++ " ".toList)) := by
  refine beforeFrom?_eq_some.2 ⟨?_, " ".toList, by decide, ?_⟩
  · rw [← List.append_assoc, List.getLast?_append_of_ne_nil _ (by decide)]
    decide
  · have himport : "import ".toList = "import".toList ++ " ".toList := rfl
    have hfrom : " from ".toList = " ".toList ++ "from".toList ++ " ".toList := rfl
    simp only [strippedStatement, himport, hfrom, List.append_assoc]

/-- A stripped statement is no clause of its own: it still has room for its import clause. -/
theorem reading?_strippedStatement_ne_own (h : c.reading? = some (.statement lead between stem))
    (before stem' : List Char) :
    (strippedStatement lead between stem).reading? ≠ some (.own before stem') := by
  intro hown
  obtain ⟨b, -, -, hst⟩ := reading?_eq_statement.1 h
  obtain ⟨hbefore, -, hnone⟩ := reading?_eq_own.1 hown
  obtain rfl := Option.some.inj (beforeFrom?_strippedStatement.symm.trans hbefore)
  have hroom : holdsClause (" ".toList ++ clauseIn between ++ " ".toList) = true :=
    holdsClause_iff.2 ⟨_, " ".toList, List.cons_ne_nil ' ' _, by decide, rfl⟩
  have hholds : HoldsStatement
      (lead ++ "import".toList ++ (" ".toList ++ clauseIn between ++ " ".toList)) lead
      (" ".toList ++ clauseIn between ++ " ".toList) :=
    ⟨rfl, (of_statementIn? hst).before, rfl, hroom⟩
  obtain ⟨l, b, hsome, -⟩ := hholds.exists_statementIn?
  rw [hnone] at hsome
  cases hsome

end Clause

namespace Revision

/-- Strips the clauses of their own, and is for no others. -/
def ownOnly : Revision :=
  byReading
    (fun c r => match r with
      | .own before stem => some (c.strippedOwn before stem)
      | .statement _ _ _ => none)
    (by
      intro c c' r hr h
      cases r with
      | own before stem => exact Option.some.inj h ▸ .own hr
      | statement lead between stem => cases h)

end Revision

namespace Quoted

variable {T : Quoted} {k : Nat} {r : Reading}

theorem revisedAt_ownOnly : T.revisedAt .ownOnly k = (T.readingAt? k).bind fun r =>
    match r with
    | .own before stem => some ((T.clauseAt k).strippedOwn before stem)
    | .statement _ _ _ => none := by
  rw [Revision.ownOnly]
  exact revisedAt_byReading

theorem revise_ownOnly (T : Quoted) : T.revise .ownOnly = T.revise .ownClauses := by
  refine revise_congr fun k => ?_
  rw [revisedAt_ownOnly]
  rcases h : T.readingAt? k with _ | ⟨before, stem⟩ | ⟨lead, between, stem⟩
  · exact .inl (revisedAt_ownClauses_eq_none.2 h).symm
  · exact .inl (revisedAt_ownClauses_own h).symm
  · exact .inr ⟨rfl, revisedAt_ownClauses_statement h⟩

/-- No new clauses arise where no path of a clause ends in `from`, white space and the suffix. -/
theorem readingAt?_revise_eq_none {f : Revision} (hf : f.Strips)
    (hclear : ∀ j, T.readingAt? j ≠ none → ¬ EndsInFromSuffix (T.run (j + 1)))
    (h : T.readingAt? k = none) : (T.revise f).readingAt? k = none := by
  rw [Option.eq_none_iff_forall_ne_some]
  intro r hr
  obtain ⟨c, hb, hfrom⟩ := exists_revisedBefore_of_readingAt? hf h hr
  cases k with
  | zero => cases hb
  | succ j =>
    have hj : T.readingAt? j ≠ none := by
      intro hnone
      rw [revisedBefore, revisedAt_eq_none_of_readingAt? hf hnone] at hb
      cases hb
    exact not_endsInFrom_of_revisedAt hf hb (hclear j hj) hfrom

/-- A clause of its own is not touched by the rule for statements. -/
theorem clauseAt_revise_statements {before stem : List Char}
    (h : T.readingAt? k = some (.own before stem)) :
    (T.revise .statements).clauseAt k = T.clauseAt k := by
  have hat : T.revisedAt .statements k = none := by
    rw [revisedAt_statements, h]
    rfl
  exact clauseAt_revise_of_none (revisedBefore_eq_none_of_readingAt? Revision.strips_statements h)
    hat (revisedAt_succ_eq_none_of_readingAt? Revision.strips_statements h)

/-- After the rule for statements the clauses of their own are those of the text. -/
theorem revisedAt_ownOnly_revise
    (hclear : ∀ j, T.readingAt? j ≠ none → ¬ EndsInFromSuffix (T.run (j + 1))) :
    (T.revise .statements).revisedAt .ownOnly k = T.revisedAt .ownOnly k := by
  rw [revisedAt_ownOnly, revisedAt_ownOnly]
  rcases h : T.readingAt? k with _ | ⟨before, stem⟩ | ⟨lead, between, stem⟩
  · rw [readingAt?_revise_eq_none Revision.strips_statements hclear h]
    rfl
  · have hclause := clauseAt_revise_statements h
    have hsame : (T.revise .statements).readingAt? k = T.readingAt? k := by
      rw [readingAt?, readingAt?, size_revise, hclause]
    rw [hsame, h, hclause]
  · have hat : T.revisedAt .statements k = some (Clause.strippedStatement lead between stem) := by
      rw [revisedAt_statements, h]
      rfl
    rcases hr : (T.revise .statements).readingAt? k with _ | ⟨before, stem'⟩ | ⟨l, b, stem'⟩
    · rfl
    · have hreading := reading?_of_readingAt? hr
      rw [clauseAt_revise hat] at hreading
      have hstatement := reading?_of_readingAt? h
      exact absurd hreading (Clause.reading?_strippedStatement_ne_own hstatement _ _)
    · rfl

theorem revise_statements_ownClauses
    (hclear : ∀ j, T.readingAt? j ≠ none → ¬ EndsInFromSuffix (T.run (j + 1))) :
    (T.revise .statements).revise .ownClauses = T.revise .stripping := by
  rw [← revise_ownOnly]
  refine revise_revise (fun k => revisedAt_ownOnly_revise hclear) (fun k c hc => ?_) fun k => ?_
  · -- The path of a statement has the suffix, so it is no head.
    have hnone : T.revisedAt .stripping (k + 1) = none := by
      refine revisedAt_succ (c := c) ?_
      rw [revisedAt_stripping, hc]
      rfl
    rw [revisedAt_ownOnly, revisedAt_stripping_eq_none.1 hnone]
    rfl
  · rw [revisedAt_stripping, revisedAt_ownOnly, revisedAt_statements]
    rcases h : T.readingAt? k with _ | ⟨before, stem⟩ | ⟨lead, between, stem⟩
    · exact revisedAt_ownClauses_eq_none.2 h
    · exact revisedAt_ownClauses_own h
    · rfl

end Quoted

namespace Rule

open Quoted (ofText)

/-- Where no run between two quotes ends in `from`, white space and the suffix, the two rules give
the same text in either order. -/
theorem apply_importStatement_fromClause_comm {t : String}
    (h : ∀ k < (ofText t.toList).size, 0 < k →
      ¬ EndsInFromSuffix ((ofText t.toList).run k)) :
    importStatement.apply (fromClause.apply t) = fromClause.apply (importStatement.apply t) := by
  have hpath : ∀ j, (ofText t.toList).readingAt? j ≠ none →
      ¬ EndsInFromSuffix ((ofText t.toList).run (j + 1)) := by
    intro j hj
    obtain ⟨r, hr⟩ := Option.ne_none_iff_exists'.1 hj
    exact h (j + 1) (Quoted.lt_size_of_readingAt? hr) (Nat.succ_pos j)
  have hclear : ∀ j before stem,
      (ofText t.toList).readingAt? j = some (.own before stem) → ¬ EndsInFrom stem := by
    intro j before stem hj
    exact Quoted.not_endsInFrom_of_own hj (hpath j (by rw [hj]; exact Option.some_ne_none _))
  rw [← String.toList_inj, toList_apply, toList_apply, toList_apply, toList_apply,
    applyChars_importStatement, applyChars_fromClause, applyChars_fromClause,
    applyChars_importStatement, Quoted.ofText_text, Quoted.ofText_text,
    Quoted.revise_ownClauses_statements hclear, Quoted.revise_statements_ownClauses hpath]

/-- A clause of its own behind a statement with two suffixes. -/
theorem apply_importStatement_fromClause_comm_two_clauses :
    importStatement.apply
        (fromClause.apply "import a from \"./a.js.js\";\nexport * from './b.js'") =
      fromClause.apply (importStatement.apply
        "import a from \"./a.js.js\";\nexport * from './b.js'") :=
  apply_importStatement_fromClause_comm (by decide +kernel)

end Rule

end ImportSuffix
