import ImportSuffix.Proofs.Separation

/-!
# An export statement behind other lines

A statement that exports everything from a module has a clause of its own, so its path is stripped
and keeps its double quotes. But whether its clause is read as one of its own is decided by what
stands in front of it: the search for `import` goes back to the last quote, over the ends of lines,
of statements and of comments. If there is no such word, the statement is stripped by itself
(`Quoted.text_revise_append_exportAll`). If there is one, even in a comment, all that stands between
it and the `from` of the export statement is taken for an import clause
(`Quoted.quote_revise_append_exportAll`).
-/

namespace ImportSuffix

open Text

namespace Clause

/-- The clause of a statement that exports everything from a module. -/
def exportAll (path : List Char) : Clause := ⟨"export * from ".toList, '"', path, '"'⟩

theorem wellFormed_exportAll {path : List Char} (h : Unquoted path) :
    (exportAll path).WellFormed :=
  have hhead : Unquoted "export * from ".toList := by decide
  ⟨hhead, rfl, h, rfl⟩

variable {s stem : List Char}

/-- Whatever stands in front of an export statement, its clause has the suffix. -/
theorem beforeFrom?_exportAll (s path : List Char) :
    beforeFrom? ((exportAll path).after s).head = some (s ++ "export * ".toList) := by
  have hwords : "export * from ".toList = "export * ".toList ++ ("from".toList ++ " ".toList) := rfl
  have hhead : ((exportAll path).after s).head =
      s ++ ("export * ".toList ++ ("from".toList ++ " ".toList)) := congrArg (s ++ ·) hwords
  refine beforeFrom?_eq_some.2 ⟨?_, " ".toList, by decide, ?_⟩
  · rw [List.getLast?_append_of_ne_nil _ (by decide)]
    decide
  · rw [hhead, ← List.append_assoc, ← List.append_assoc]

theorem reading?_exportAll_own (h : statementIn? (s ++ "export * ".toList) = none) :
    ((exportAll (stem ++ ".js".toList)).after s).reading? =
      some (.own (s ++ "export * ".toList) stem) :=
  reading?_eq_own.2 ⟨beforeFrom?_exportAll s _, rfl, h⟩

theorem reading?_exportAll_statement {lead between : List Char}
    (h : statementIn? (s ++ "export * ".toList) = some (lead, between)) :
    ((exportAll (stem ++ ".js".toList)).after s).reading? = some (.statement lead between stem) :=
  reading?_eq_statement.2 ⟨_, beforeFrom?_exportAll s _, rfl, h⟩

end Clause

/-- Stripping an export statement that is no part of an import statement takes its suffix and
nothing else. -/
theorem Revision.stripping_exportAll {s stem : List Char}
    (h : statementIn? (s ++ "export * ".toList) = none) :
    stripping.revise? ((Clause.exportAll (stem ++ ".js".toList)).after s) =
      some ((Clause.exportAll stem).after s) := by
  have hwords : "export * ".toList ++ "from ".toList = "export * from ".toList := rfl
  simp only [stripping, byReading, Clause.reading?_exportAll_own h, Option.bind_some,
    Clause.strippedOwn, List.append_assoc, hwords]
  rfl

/-- Any word `import` makes an export statement behind it the end of an import statement: there is
room for an import clause between the two. -/
theorem Text.exists_statementIn?_export {s : List Char} (h : HasWord "import".toList s)
    (hside : Cursor.isWordSide s.getLast? = false) :
    ∃ lead between, statementIn? (s ++ "export * ".toList) = some (lead, between) := by
  obtain ⟨before, after, rfl, hbefore, hafter⟩ := (hasWord_iff (by decide)).1 h
  have hafter' : Cursor.isWordSide (after ++ "export * ".toList).head? = false := by
    cases after with
    | nil =>
      rw [List.append_nil, List.getLast?_append_of_ne_nil _ (by decide)] at hside
      exact absurd hside (by decide +kernel)
    | cons c after => exact hafter
  have hroom : holdsClause (after ++ "export * ".toList) = true := by
    refine holdsClause_iff.2 ⟨after ++ "export *".toList, " ".toList, by simp, by decide, ?_⟩
    rw [List.append_assoc]
    rfl
  have hholds : HoldsStatement (before ++ "import".toList ++ after ++ "export * ".toList) before
      (after ++ "export * ".toList) :=
    ⟨List.append_assoc _ _ _, hbefore, hafter', hroom⟩
  obtain ⟨lead, between, hst, -⟩ := hholds.exists_statementIn?
  exact ⟨lead, between, hst⟩

theorem Text.statementIn?_export_eq_none {s : List Char} (h : ¬ HasWord "import".toList s)
    (hside : Cursor.isWordSide s.getLast? = false) :
    statementIn? (s ++ "export * ".toList) = none := by
  have hnone : statementIn? "export * ".toList = none := by decide +kernel
  rw [statementIn?_append hside h, hnone]
  rfl

namespace Quoted

variable {T A E : Quoted} {c c' : Clause} {f : Revision} {r stem : List Char} {k : Nat}

/-- A text of one clause and something without quotes behind it. -/
structure IsClause (T : Quoted) (c : Clause) (r : List Char) : Prop where
  size : T.size = 2
  clauseAt : T.clauseAt 0 = c
  run : T.run 2 = r

theorem isClause_ofText (hc : c.WellFormed) (hr : Unquoted r) :
    (ofText (c.text ++ r)).IsClause c r := by
  have htext : (ofText (c.text ++ r)).textFrom 0 = c.text ++ r := text_ofText _
  obtain ⟨hlt, hclause⟩ := eq_clauseAt (Nat.zero_le _) hc htext
  have hrest : (ofText (c.text ++ r)).textFrom 2 = r := by
    rw [textFrom_eq_clauseAt hlt, ← hclause] at htext
    exact List.append_cancel_left htext
  have hsize : (ofText (c.text ++ r)).size = 2 := by
    refine Nat.le_antisymm (Nat.not_lt.1 fun hmore => ?_) hlt
    rw [textFrom_of_lt hmore] at hrest
    exact not_unquoted_append_quote ((ofText (c.text ++ r)).isQuote_quote 2) (hrest ▸ hr)
  refine ⟨hsize, hclause.symm, ?_⟩
  have hlast := textFrom_size (ofText (c.text ++ r))
  rwa [hsize, hrest, eq_comm] at hlast

theorem IsClause.text_revise (h : T.IsClause c r) (hc : f.revise? c = some c') :
    (T.revise f).text = c'.text ++ r := by
  have hat : T.revisedAt f 0 = some c' := by
    rw [revisedAt, if_pos (by rw [h.size]; exact Nat.lt_succ_self 1), h.clauseAt, hc]
  have hlast := textFrom_revise_size
    (revisedBefore_eq_none_of_size_le (T := T) (f := f) (Nat.le_refl T.size))
  rw [h.size, h.run] at hlast
  rw [← textFrom_zero, textFrom_revise_clause hat, hlast]

/-- In a text without clauses and an export statement behind it, only the export statement has one
with the suffix. -/
theorem eq_size_of_readingAt?_append (hA : ∀ k, A.readingAt? k = none)
    (hE : E.IsClause (Clause.exportAll (stem ++ ".js".toList)) r) {reading : Reading}
    (h : (A.append E).readingAt? k = some reading) : k = A.size := by
  obtain ⟨hlt, hfrom, hsuffix⟩ := exists_readingAt?_iff.1 ⟨reading, h⟩
  rw [size_append, hE.size] at hlt
  rcases Nat.lt_trichotomy k A.size with hk | hk | hk
  · exfalso
    rw [run_append_of_lt hk] at hfrom
    rcases Nat.lt_or_eq_of_le (Nat.succ_le_of_lt hk) with hk' | hk'
    · rw [run_append_of_lt hk'] at hsuffix
      obtain ⟨reading', h'⟩ := exists_readingAt?_iff.2 ⟨hk', hfrom, hsuffix⟩
      rw [hA k] at h'
      cases h'
    · -- The last run of the first text goes on with the head of the export statement.
      have hhead : E.run 0 = "export * from ".toList := congrArg Clause.head hE.clauseAt
      have hrun : (A.append E).run (k + 1) = A.run A.size ++ "export * from ".toList := by
        rw [← hhead, ← A.lead_zero, ← run_append_add, Nat.add_zero]
        exact congrArg (A.append E).run hk'
      rw [hrun] at hsuffix
      obtain ⟨t, ht⟩ := hsuffix
      have hlast := congrArg List.getLast? ht
      rw [List.getLast?_append_of_ne_nil _ (by decide),
        List.getLast?_append_of_ne_nil _ (by decide)] at hlast
      exact absurd hlast (by decide)
  · exact hk
  · omega

theorem readingAt?_append_size (hE : E.IsClause (Clause.exportAll (stem ++ ".js".toList)) r) :
    (A.append E).readingAt? A.size =
      ((Clause.exportAll (stem ++ ".js".toList)).after (A.run A.size)).reading? := by
  have hlt : A.size + 1 < (A.append E).size := by
    rw [size_append, hE.size]
    exact Nat.lt_succ_self _
  have hclause := clauseAt_append_add (A := A) (B := E) 0
  rw [Nat.add_zero, hE.clauseAt, lead_zero] at hclause
  rw [readingAt?, if_pos hlt, hclause]

/-- An export statement without `import` in front of it is stripped, and nothing else is. -/
theorem text_revise_append_exportAll (hA : ∀ k, A.readingAt? k = none)
    (hE : E.IsClause (Clause.exportAll (stem ++ ".js".toList)) r)
    (hside : Cursor.isWordSide (A.run A.size).getLast? = false)
    (himport : ¬ HasWord "import".toList (A.run A.size)) :
    ((A.append E).revise .stripping).text = A.text ++ ((Clause.exportAll stem).text ++ r) := by
  have hfirst : Revision.stripping.revise?
      ((Clause.exportAll (stem ++ ".js".toList)).after (A.run A.size)) =
        some ((Clause.exportAll stem).after (A.run A.size)) :=
    Revision.stripping_exportAll (statementIn?_export_eq_none himport hside)
  have halone : Revision.stripping.revise? (Clause.exportAll (stem ++ ".js".toList)) =
      some (Clause.exportAll stem) :=
    Revision.stripping_exportAll (s := []) (by decide +kernel)
  have hsplits : Splits .stripping A E := by
    refine ⟨fun k hk => ?_, ?_⟩
    · rw [revisedAt_stripping_eq_none, Option.eq_none_iff_forall_ne_some]
      intro reading hreading
      have := eq_size_of_readingAt?_append hA hE hreading
      omega
    · rw [hE.clauseAt, hfirst, halone]
      rfl
  have hsame : A.revise .stripping = A :=
    revise_eq_self fun k => revisedAt_stripping_eq_none.2 (hA k)
  rw [hsplits.revise_append, hsame, text_append, hE.text_revise halone]

/-- An export statement with `import` in front of it gets single quotes. -/
theorem quote_revise_append_exportAll
    (hE : E.IsClause (Clause.exportAll (stem ++ ".js".toList)) r)
    (hside : Cursor.isWordSide (A.run A.size).getLast? = false)
    (himport : HasWord "import".toList (A.run A.size)) :
    ((A.append E).revise .stripping).quote A.size = '\'' := by
  obtain ⟨lead, between, hst⟩ := exists_statementIn?_export himport hside
  have hreading := readingAt?_append_size (A := A) hE
  rw [Clause.reading?_exportAll_statement hst] at hreading
  have hat : (A.append E).revisedAt .stripping A.size =
      some (Clause.strippedStatement lead between stem) := by
    rw [revisedAt_stripping, revisedAt_statements, hreading]
    rfl
  exact congrArg Clause.opening (clauseAt_revise hat)

/-- No path is left that ends in `from` and white space, if that of the export statement does
not. -/
theorem not_endsInFrom_of_append_exportAll (hA : ∀ k, A.readingAt? k = none)
    (hE : E.IsClause (Clause.exportAll (stem ++ ".js".toList)) r) (hstem : ¬ EndsInFrom stem)
    {before stem' : List Char} (h : (A.append E).readingAt? k = some (.own before stem')) :
    ¬ EndsInFrom stem' := by
  obtain rfl := eq_size_of_readingAt?_append hA hE h
  have hpath := path_of_readingAt?_own h
  have hpath' : E.run 1 = stem ++ ".js".toList := congrArg Clause.path hE.clauseAt
  rw [run_append_add, hpath', lead_succ, List.nil_append] at hpath
  rwa [← List.append_cancel_right hpath]

end Quoted

namespace Rule

open Quoted (ofText)

/-- A statement that exports everything from a module. -/
def exportAll (path : String) : String := "export * from \"" ++ path ++ "\";\n"

theorem toList_exportAll (path : String) :
    (exportAll path).toList = (Clause.exportAll path.toList).text ++ ";\n".toList := by
  change ("export * from \"" ++ path ++ "\";\n").toList = _
  rw [String.toList_append, String.toList_append, Clause.text_append, List.append_assoc]
  rfl

/-- Behind whole lines without clauses that have the suffix, an export statement is stripped, keeps
its double quotes and leaves these lines as they are, exactly if they have no word `import` behind
their last quote. -/
theorem applyRules_suffixRules_exportAll_iff {p v : String}
    (hlines : p = "" ∨ p.toList.getLast? = some '\n') (hcount : clauseCount p.toList = 0)
    (hv : Unquoted v.toList) (hfrom : ¬ EndsInFrom v.toList) :
    applyRules suffixRules (p ++ exportAll (v ++ ".js")) = p ++ exportAll v ↔
      ¬ HasWord "import".toList ((ofText p.toList).run (ofText p.toList).size) := by
  have hA := Quoted.clauseCount_eq_zero_iff.1 hcount
  have hside := isWordSide_getLast?_run_size hlines
  have hpath : Unquoted (v.toList ++ ".js".toList) := unquoted_append.2 ⟨hv, by decide⟩
  have hE := Quoted.isClause_ofText (Clause.wellFormed_exportAll hpath)
    (show Unquoted ";\n".toList by decide)
  have hresult : (applyRules suffixRules (p ++ exportAll (v ++ ".js"))).toList =
      (((ofText p.toList).append (ofText ((Clause.exportAll (v.toList ++ ".js".toList)).text ++
        ";\n".toList))).revise .stripping).text := by
    rw [toList_applyRules, String.toList_append, toList_exportAll, String.toList_append,
      Quoted.ofText_append, Quoted.revise_ownClauses_statements]
    exact fun j before stem hj => Quoted.not_endsInFrom_of_append_exportAll hA hE hfrom hj
  rw [← String.toList_inj, hresult, String.toList_append, toList_exportAll]
  constructor
  · intro hsame himport
    -- The two texts have different quotes around the path.
    have hquote := Quoted.quote_revise_append_exportAll hE hside himport
    have hE' := Quoted.isClause_ofText (Clause.wellFormed_exportAll hv)
      (show Unquoted ";\n".toList by decide)
    rw [← Quoted.ofText_text (Quoted.revise _ _), hsame, Quoted.ofText_append,
      ← Nat.add_zero (ofText p.toList).size, Quoted.quote_append_add] at hquote
    have hopening : (ofText ((Clause.exportAll v.toList).text ++ ";\n".toList)).quote 0 = '"' :=
      congrArg Clause.opening hE'.clauseAt
    rw [hopening] at hquote
    exact absurd hquote (by decide)
  · intro himport
    rw [Quoted.text_revise_append_exportAll hA hE hside himport, Quoted.text_ofText]

/-- An identifier that begins like the word is none. -/
theorem applyRules_suffixRules_exportAll_identifier :
    applyRules suffixRules ("const important = 1;\n" ++ exportAll ("./x" ++ ".js")) =
      "const important = 1;\n" ++ exportAll "./x" :=
  (applyRules_suffixRules_exportAll_iff (.inr (by decide +kernel)) (by decide +kernel)
    (by decide +kernel) (by decide +kernel)).2 (by decide +kernel)

/-- Behind a comment that ends in the word `import`, the export statement becomes a part of the
comment. -/
theorem applyRules_suffixRules_exportAll_comment :
    clauseCount "// import\n".toList = 0 ∧
      applyRules suffixRules ("// import\n" ++ exportAll ("./x" ++ ".js")) =
        "// import export * from './x';\n" ∧
      applyRules suffixRules ("// import\n" ++ exportAll ("./x" ++ ".js")) ≠
        "// import\n" ++ exportAll "./x" := by
  have hresult : applyRules suffixRules ("// import\n" ++ exportAll ("./x" ++ ".js")) =
      "// import export * from './x';\n" := by
    rw [← String.toList_inj, toList_applyRules]
    decide +kernel
  refine ⟨by decide +kernel, hresult, ?_⟩
  rw [hresult]
  decide +kernel

end Rule

end ImportSuffix
