import ImportSuffix.Proofs.ExportStatement

/-!
# Which quote closes a literal

A literal ends at the quote that it began with, and the other quote is a character like any other in
it. The suffix rules do not keep to that: either quote closes a path. A literal without the other
quote loses its suffix, and nothing else is changed (`Rule.applyRules_exportQuoted_of_unquoted`).
One with the other quote never loses just its suffix (`Rule.applyRules_exportQuoted_ne_of_quoted`),
and is cut where a clause with the suffix ends at that quote
(`Rule.applyRules_suffixRules_exportQuoted_iff`).
-/

namespace ImportSuffix

open Text

namespace Text

/-- A text without the suffix, if it ends in it, and else the text itself. -/
def withoutSuffix (s : List Char) : List Char := (beforeSuffix? s).getD s

theorem withoutSuffix_append (stem : List Char) : withoutSuffix (stem ++ ".js".toList) = stem := by
  rw [withoutSuffix, beforeSuffix?_eq_some.2 rfl, Option.getD_some]

theorem withoutSuffix_of_not_suffix {s : List Char} (h : ¬ ".js".toList <:+ s) :
    withoutSuffix s = s := by
  rw [withoutSuffix, beforeSuffix?, if_neg h, Option.getD_none]

/-- A text with quotes falls in two at the last of them. -/
theorem exists_last_quote {s : List Char} (h : ¬ Unquoted s) :
    ∃ a q u, s = a ++ q :: u ∧ isQuote q = true ∧ Unquoted u := by
  induction s with
  | nil => exact absurd unquoted_nil h
  | cons c s ih =>
    by_cases hs : Unquoted s
    · have hc : isQuote c = true := by simpa [hs] using h
      exact ⟨[], c, s, rfl, hc, hs⟩
    · obtain ⟨a, q, u, rfl, hq, hu⟩ := ih hs
      exact ⟨c :: a, q, u, rfl, hq, hu⟩

end Text

namespace Clause

/-- The clause of a statement that exports everything from a module, with either quote. -/
def exportQuoted (q : Char) (path : List Char) : Clause := ⟨"export * from ".toList, q, path, q⟩

variable {q : Char} {path : List Char}

/-- A clause with a quote in its path ends with another clause. -/
theorem text_with_path (c : Clause) (a path : List Char) (q : Char) :
    { c with path := a ++ q :: path : Clause }.text =
      (c.head ++ c.opening :: a) ++ (⟨[], q, path, c.closing⟩ : Clause).text := by
  simp [text]

theorem wellFormed_exportQuoted (hq : isQuote q = true) (h : Unquoted path) :
    (exportQuoted q path).WellFormed :=
  have hhead : Unquoted "export * from ".toList := by decide
  ⟨hhead, hq, h, hq⟩

/-- Whether a clause without an import statement is read depends on its path alone. -/
theorem reading?_of_beforeFrom? {c : Clause} {before : List Char}
    (hbefore : beforeFrom? c.head = some before) (hnone : statementIn? before = none) :
    c.reading? = (beforeSuffix? c.path).map (.own before) := by
  rw [reading?, hbefore]
  cases beforeSuffix? c.path with
  | none => rfl
  | some stem => simp only [hnone, Option.map_some]

theorem reading?_exportQuoted (q : Char) (path : List Char) : (exportQuoted q path).reading? =
    (beforeSuffix? path).map (.own "export * ".toList) :=
  have hbefore : beforeFrom? "export * from ".toList = some "export * ".toList := by
    decide +kernel
  have hnone : statementIn? "export * ".toList = none := by decide +kernel
  reading?_of_beforeFrom? hbefore hnone

end Clause

namespace Revision

theorem getD_ownClauses_exportQuoted (q : Char) (path : List Char) :
    (ownClauses.revise? (Clause.exportQuoted q path)).getD (Clause.exportQuoted q path) =
      Clause.exportQuoted q (withoutSuffix path) := by
  have hreading := Clause.reading?_exportQuoted q path
  cases hpath : beforeSuffix? path with
  | none =>
    rw [hpath] at hreading
    simp [ownClauses, byReading, hreading, withoutSuffix, hpath]
  | some stem =>
    rw [hpath] at hreading
    rw [ownClauses_own hreading, withoutSuffix, hpath]
    rfl

theorem statements_exportQuoted (q : Char) (path : List Char) :
    statements.revise? (Clause.exportQuoted q path) = none := by
  simp only [statements, byReading, Clause.reading?_exportQuoted]
  cases beforeSuffix? path <;> rfl

end Revision

namespace Quoted

variable {T : Quoted} {c : Clause} {f : Revision} {r : List Char} {k : Nat}

theorem IsClause.text (h : T.IsClause c r) : T.text = c.text ++ r := by
  have hlast := textFrom_size T
  rw [h.size, h.run] at hlast
  rw [← textFrom_zero, textFrom_eq_clauseAt (by rw [h.size]; exact Nat.lt_succ_self 1),
    h.clauseAt, hlast]

theorem IsClause.text_revise_getD (h : T.IsClause c r) (f : Revision) :
    (T.revise f).text = ((f.revise? c).getD c).text ++ r := by
  cases hc : f.revise? c with
  | some c' => exact h.text_revise hc
  | none =>
    have hnone : ∀ k, T.revisedAt f k = none := by
      intro k
      cases k with
      | zero => rw [revisedAt, h.clauseAt, hc, ite_self]
      | succ k => exact revisedAt_eq_none_of_size_le (by rw [h.size]; omega)
    rw [revise_eq_self hnone, h.text, Option.getD_none]

/-- The path of the last clause of a text is changed by the rules only if its closing quote becomes
the opening one. -/
theorem quote_revise_revise_succ (hsize : T.size = k + 2)
    (hrun : ((T.revise .ownClauses).revise .statements).run (k + 1) ≠ T.run (k + 1)) :
    ((T.revise .ownClauses).revise .statements).quote (k + 1) = T.quote k ∨
      ((T.revise .ownClauses).revise .statements).quote (k + 1) =
        ((T.revise .ownClauses).revise .statements).quote k := by
  have hlast : ∀ {S : Quoted} (f : Revision), S.size = k + 2 → S.revisedAt f (k + 1) = none :=
    fun f hS => revisedAt_eq_none_of_size_le (Nat.le_of_eq hS)
  have hsize' : (T.revise .ownClauses).size = k + 2 := by rw [size_revise, hsize]
  cases hat : (T.revise .ownClauses).revisedAt .statements k with
  | some c =>
    -- An import statement gets the same quote on both sides.
    have hc := clauseAt_revise hat
    rw [revisedAt_statements] at hat
    obtain ⟨reading, -, hmake⟩ := Option.bind_eq_some_iff.1 hat
    cases reading with
    | own before stem => cases hmake
    | statement lead between stem =>
      obtain rfl := Option.some.inj hmake
      exact .inr ((congrArg Clause.closing hc).trans (congrArg Clause.opening hc).symm)
  | none =>
    have hbefore : (T.revise .ownClauses).revisedBefore .statements (k + 1) = none := hat
    rw [run_revise_of_none hbefore (hlast _ hsize')] at hrun
    rw [quote_revise_of_none hbefore (hlast _ hsize')]
    rcases hr : T.readingAt? k with _ | ⟨before, stem⟩ | ⟨lead, between, stem⟩
    · have hsame : T.revisedBefore .ownClauses (k + 1) = none := revisedAt_ownClauses_eq_none.2 hr
      exact absurd (run_revise_of_none hsame (hlast _ hsize)) hrun
    · exact .inl (congrArg Clause.closing (clauseAt_revise (revisedAt_ownClauses_own hr)))
    · have hsame := clauseAt_revise (revisedAt_ownClauses_statement hr)
      exact absurd (congrArg Clause.path hsame) hrun

/-- The last clause of a text does not change its path alone, if it has two kinds of quotes. -/
theorem revise_revise_append_ne {A B B' : Quoted} {c c' : Clause} {r r' : List Char}
    (hB : B.IsClause c r) (hB' : B'.IsClause c' r') (hopening : c'.opening = c.opening)
    (hclosing : c'.closing ≠ c.opening) (hpath : c'.path ≠ c.path) :
    ((A.append B).revise .ownClauses).revise .statements ≠ A.append B' := by
  intro hsame
  have hclause : (A.append B).clauseAt A.size = c.after (A.run A.size) := by
    rw [← hB.clauseAt]
    exact clauseAt_append_add 0
  have hclause' : (A.append B').clauseAt A.size = c'.after (A.run A.size) := by
    rw [← hB'.clauseAt]
    exact clauseAt_append_add 0
  have hsize : (A.append B).size = A.size + 2 := by rw [size_append, hB.size]
  have hquote := quote_revise_revise_succ hsize
  rw [hsame] at hquote
  have hrun : (A.append B').run (A.size + 1) ≠ (A.append B).run (A.size + 1) := by
    intro h
    have hpaths := h.trans (congrArg Clause.path hclause)
    exact hpath ((congrArg Clause.path hclause').symm.trans hpaths)
  have hlast : (A.append B').quote (A.size + 1) = c'.closing := congrArg Clause.closing hclause'
  have hfirst : (A.append B').quote A.size = c'.opening := congrArg Clause.opening hclause'
  have hkept : (A.append B).quote A.size = c.opening := congrArg Clause.opening hclause
  rw [hlast, hfirst, hkept, hopening, or_self] at hquote
  exact hclosing (hquote hrun)

end Quoted

namespace Rule

open Quoted (ofText)

variable {q : Char} {v : List Char}

/-- A statement that exports everything from a module, with either quote. -/
def exportQuoted (q : Char) (path : List Char) : String :=
  "export * from " ++ String.ofList (q :: (path ++ [q])) ++ ";"

theorem toList_exportQuoted (q : Char) (path : List Char) :
    (exportQuoted q path).toList = (Clause.exportQuoted q path).text ++ ";".toList := by
  have hliteral : (String.ofList (q :: (path ++ [q]))).toList = q :: (path ++ [q]) :=
    String.toList_ofList
  change ("export * from " ++ String.ofList (q :: (path ++ [q])) ++ ";").toList = _
  rw [String.toList_append, String.toList_append, hliteral]
  rfl

/-- From a literal without the other quote its suffix is taken, and nothing else. -/
theorem applyRules_exportQuoted_of_unquoted (hq : isQuote q = true) (hv : Unquoted v) :
    applyRules suffixRules (exportQuoted q v) = exportQuoted q (withoutSuffix v) := by
  have hend : Unquoted ";".toList := by decide
  have hstem : Unquoted (withoutSuffix v) := by
    by_cases hsuffix : ".js".toList <:+ v
    · obtain ⟨stem, rfl⟩ := hsuffix
      rw [withoutSuffix_append]
      exact (unquoted_append.1 hv).1
    · rwa [withoutSuffix_of_not_suffix hsuffix]
  have hfirst := Quoted.isClause_ofText (Clause.wellFormed_exportQuoted hq hv) hend
  have hsecond := Quoted.isClause_ofText (Clause.wellFormed_exportQuoted hq hstem) hend
  -- The first rule makes the new statement, in which the second one finds nothing.
  have hown := hfirst.text_revise_getD .ownClauses
  rw [Revision.getD_ownClauses_exportQuoted] at hown
  rw [← String.toList_inj, toList_applyRules, toList_exportQuoted, toList_exportQuoted,
    ← Quoted.ofText_text (Quoted.revise (ofText _) _), hown, hsecond.text_revise_getD,
    Revision.statements_exportQuoted, Option.getD_none]

theorem toList_exportQuoted_quoted (q q' : Char) (a path : List Char) :
    (exportQuoted q (a ++ q' :: path)).toList =
      ("export * from ".toList ++ q :: a) ++ ((⟨[], q', path, q⟩ : Clause).text ++ ";".toList) := by
  have htext := (Clause.exportQuoted q a).text_with_path a path q'
  rw [toList_exportQuoted, ← List.append_assoc]
  exact congrArg (· ++ ";".toList) htext

/-- From a literal with the other quote the rules do not take its suffix: the path before the suffix
begins at that quote, and would get the same one at its end. -/
theorem applyRules_exportQuoted_ne_of_quoted (hq : isQuote q = true) (hqv : q ∉ v)
    (hv : ¬ Unquoted v) :
    applyRules suffixRules (exportQuoted q (v ++ ".js".toList)) ≠ exportQuoted q v := by
  intro hsame
  obtain ⟨a, q', u, rfl, hq', hu⟩ := exists_last_quote hv
  have hne : q ≠ q' := by
    rintro rfl
    exact hqv (List.mem_append_right a List.mem_cons_self)
  have hend : Unquoted ";".toList := by decide
  have hpath : Unquoted (u ++ ".js".toList) := unquoted_append.2 ⟨hu, by decide⟩
  have hbefore : Quoted.IsClause _ ⟨[], q', u ++ ".js".toList, q⟩ ";".toList :=
    Quoted.isClause_ofText ⟨unquoted_nil, hq', hpath, hq⟩ hend
  have hafter : Quoted.IsClause _ ⟨[], q', u, q⟩ ";".toList :=
    Quoted.isClause_ofText ⟨unquoted_nil, hq', hu, hq⟩ hend
  have hlonger : u ≠ u ++ ".js".toList := by simp
  refine Quoted.revise_revise_append_ne (A := ofText ("export * from ".toList ++ q :: a)) hbefore
    hafter rfl hne hlonger ?_
  rw [← Quoted.ofText_append, ← Quoted.ofText_append, ← toList_exportQuoted_quoted,
    ← toList_exportQuoted_quoted, ← hsame, ofText_applyRules, List.append_assoc, List.cons_append]

/-- The rules take its suffix from the literal of a statement, if it has one, and leave everything
else as it is, exactly if the other quote is not in it, or it has no suffix and the other quote
makes no clause with one. -/
theorem applyRules_suffixRules_exportQuoted_iff (hq : isQuote q = true) (hqv : q ∉ v) :
    applyRules suffixRules (exportQuoted q v) = exportQuoted q (withoutSuffix v) ↔
      Unquoted v ∨ ¬ ".js".toList <:+ v ∧ clauseCount (exportQuoted q v).toList = 0 := by
  constructor
  · intro hsame
    by_cases hsuffix : ".js".toList <:+ v
    · obtain ⟨stem, rfl⟩ := hsuffix
      rw [withoutSuffix_append] at hsame
      by_contra hquoted
      have hstem : ¬ Unquoted stem := by
        intro hstem
        exact hquoted (.inl (unquoted_append.2 ⟨hstem, by decide⟩))
      have hqstem : q ∉ stem := fun h => hqv (List.mem_append_left _ h)
      exact applyRules_exportQuoted_ne_of_quoted hq hqstem hstem hsame
    · -- Every clause would make the text shorter.
      rw [withoutSuffix_of_not_suffix hsuffix] at hsame
      have hlen := length_applyRules_suffixRules (exportQuoted q v)
      rw [hsame] at hlen
      exact .inr ⟨hsuffix, by omega⟩
  · rintro (hv | ⟨hsuffix, hcount⟩)
    · exact applyRules_exportQuoted_of_unquoted hq hv
    · rw [applyRules_suffixRules_of_clauseCount hcount, withoutSuffix_of_not_suffix hsuffix]

/-- An apostrophe in a path without the suffix does no harm. -/
theorem applyRules_suffixRules_exportQuoted_apostrophe :
    applyRules suffixRules (exportQuoted '"' "./it's.ts".toList) =
      exportQuoted '"' (withoutSuffix "./it's.ts".toList) :=
  (applyRules_suffixRules_exportQuoted_iff rfl (by decide +kernel)).2
    (.inr ⟨by decide +kernel, by decide +kernel⟩)

/-- A literal that has the suffix before an apostrophe is closed there. -/
theorem applyRules_suffixRules_exportQuoted_closed :
    '"' ∉ "a.js'b".toList ∧ '\n' ∉ "a.js'b".toList ∧ ¬ EndsInFromSuffix "a.js'b".toList ∧
      exportQuoted '"' "a.js'b".toList = "export * from \"a.js'b\";" ∧
      applyRules suffixRules (exportQuoted '"' "a.js'b".toList) = "export * from \"a\"b\";" ∧
      applyRules suffixRules (exportQuoted '"' "a.js'b".toList) ≠
        exportQuoted '"' (withoutSuffix "a.js'b".toList) := by
  have hresult : applyRules suffixRules (exportQuoted '"' "a.js'b".toList) =
      "export * from \"a\"b\";" := by
    rw [← String.toList_inj, toList_applyRules]
    decide +kernel
  refine ⟨by decide +kernel, by decide +kernel, by decide +kernel, by decide +kernel, hresult, ?_⟩
  rw [hresult]
  decide +kernel

end Rule

end ImportSuffix
