import ImportSuffix.Proofs.Convergence
import ImportSuffix.Proofs.LineFeeds

/-!
# Texts with other line endings

The suffix rules make the same of a text whether its lines end with a line feed or with a carriage
return and a line feed. Leaving out the carriage returns changes no quote of a text, so it is done
run by run (`Quoted.lineFeeds`), and a clause without them is read as the clause is
(`Clause.reading?_lineFeeds`) and becomes what the clause becomes (`Revision.KeepsLineFeeds`). All
this needs that no `import` is bare; and the rule for clauses of their own makes none
(`Quoted.not_hasBareImport_run_revise`).
-/

namespace ImportSuffix

open Text
open Cursor (isWordSide)

/-! ### Clauses -/

/-- The reading of a clause without the carriage returns. -/
def Reading.lineFeeds : Reading → Reading
  | own before stem => own (Text.lineFeeds before) (Text.lineFeeds stem)
  | statement lead between stem =>
    statement (Text.lineFeeds lead) (Text.lineFeeds between) (Text.lineFeeds stem)

namespace Clause

/-- The clause without the carriage returns. -/
def lineFeeds (c : Clause) : Clause :=
  ⟨Text.lineFeeds c.head, c.opening, Text.lineFeeds c.path, c.closing⟩

variable {c c' : Clause} {before stem lead between : List Char}

theorem reading?_lineFeeds (h : ¬ HasBareImport c.head) :
    c.lineFeeds.reading? = c.reading?.map Reading.lineFeeds := by
  simp only [reading?, lineFeeds, beforeFrom?_lineFeeds, beforeSuffix?_lineFeeds]
  cases hbefore : beforeFrom? c.head with
  | none => rfl
  | some before =>
    cases beforeSuffix? c.path with
    | none => rfl
    | some stem =>
      obtain ⟨hside, gap, hgap, hhead⟩ := beforeFrom?_eq_some.1 hbefore
      rw [hhead] at h
      simp only [Option.map_some, statementIn?_lineFeeds hside hgap.isWordSide_head? h]
      cases statementIn? before <;> rfl

theorem strippedOwn_lineFeeds (c : Clause) (before stem : List Char) :
    c.lineFeeds.strippedOwn (Text.lineFeeds before) (Text.lineFeeds stem) =
      (c.strippedOwn before stem).lineFeeds := by
  have hhead : Text.lineFeeds (before ++ "from ".toList) =
      Text.lineFeeds before ++ "from ".toList := lineFeeds_append fun _ => by decide
  rw [strippedOwn, strippedOwn, lineFeeds, lineFeeds, hhead]

/-- The import clause of a statement is not white space, unless the import is bare. -/
theorem not_blank_of_statement (hbare : ¬ HasBareImport c.head)
    (h : c.reading? = some (.statement lead between stem)) :
    ¬ ∀ d ∈ between, isBlank d = true := by
  intro hblank
  obtain ⟨before, hbefore, -, hst⟩ := reading?_eq_statement.1 h
  obtain ⟨hside, gap, hgap, hhead⟩ := beforeFrom?_eq_some.1 hbefore
  have hholds := of_statementIn? hst
  rw [hholds.eq] at hside hhead
  rw [hhead] at hbare
  exact hbare (hasBareImport_of_blank hholds.before hside hblank hgap.isWordSide_head?)

theorem strippedStatement_lineFeeds (hblank : ¬ ∀ d ∈ between, isBlank d = true) :
    strippedStatement (Text.lineFeeds lead) (Text.lineFeeds between) (Text.lineFeeds stem) =
      (strippedStatement lead between stem).lineFeeds := by
  have himport : ∀ t, Text.lineFeeds (lead ++ "import ".toList ++ t) =
      Text.lineFeeds lead ++ "import ".toList ++ Text.lineFeeds t :=
    fun t => lineFeeds_append_append (by decide) (by decide) (by decide)
  have hfrom : ∀ s, Text.lineFeeds (s ++ " from ".toList) =
      Text.lineFeeds s ++ " from ".toList := fun s => lineFeeds_append fun _ => by decide
  rw [strippedStatement, strippedStatement, lineFeeds, hfrom, himport, clauseIn_lineFeeds hblank]

/-- A clause that is stripped as one of its own keeps its `from`, with one space for the white space
behind it. -/
theorem not_hasBareImport_head (hbare : ¬ HasBareImport c.head)
    (h : Revision.ownClauses.revise? c = some c') : ¬ HasBareImport c'.head := by
  obtain ⟨r, hr, hmake⟩ := Option.bind_eq_some_iff.1 h
  cases r with
  | own before stem =>
    obtain rfl := Option.some.inj hmake
    intro hnew
    obtain ⟨-, gap, hgap, hhead⟩ := head_of_own hr
    have hspace : before ++ "from ".toList = before ++ "from".toList ++ " ".toList := by
      rw [List.append_assoc]
      rfl
    have hblank : IsGap " ".toList := by decide
    rw [strippedOwn, hspace] at hnew
    have hlonger : HasBareImport ([] ++ (before ++ "from".toList) ++ gap) :=
      (hnew.of_append_blank hblank.2).append rfl hgap.isWordSide_head?
    exact hbare (hhead ▸ hlonger)
  | statement lead between stem =>
    obtain rfl := Option.some.inj hmake
    exact hbare

/-- A path loses no more than its end. -/
theorem StrippedTo.not_hasBareImport_path (h : c.StrippedTo c') (hbare : ¬ HasBareImport c.path) :
    ¬ HasBareImport c'.path := by
  intro hnew
  rcases h.path with hpath | hpath
  · exact hbare (hpath ▸ hnew)
  · have hjs : isWordSide ".js".toList.head? = false := by decide +kernel
    have hlonger : HasBareImport ([] ++ c'.path ++ ".js".toList) := hnew.append rfl hjs
    exact hbare (hpath ▸ hlonger)

end Clause

/-! ### Revisions -/

namespace Revision

/-- That a revision makes of a clause without the carriage returns what it makes of the clause,
without the carriage returns. -/
def KeepsLineFeeds (f : Revision) : Prop :=
  ∀ c : Clause, ¬ HasBareImport c.head → f.revise? c.lineFeeds = (f.revise? c).map Clause.lineFeeds

theorem keepsLineFeeds_ownClauses : ownClauses.KeepsLineFeeds := by
  intro c hbare
  have hreading := Clause.reading?_lineFeeds hbare
  rcases h : c.reading? with _ | ⟨before, stem⟩ | ⟨lead, between, stem⟩
  · simp [ownClauses, byReading, hreading, h]
  · rw [h] at hreading
    rw [ownClauses_own h, ownClauses_own hreading, Clause.strippedOwn_lineFeeds, Option.map_some]
  · rw [h] at hreading
    rw [ownClauses_statement h, ownClauses_statement hreading, Option.map_some]

theorem keepsLineFeeds_statements : statements.KeepsLineFeeds := by
  intro c hbare
  have hreading := Clause.reading?_lineFeeds hbare
  rcases h : c.reading? with _ | ⟨before, stem⟩ | ⟨lead, between, stem⟩
  · simp [statements, byReading, hreading, h]
  · rw [h] at hreading
    rw [statements_own h, statements_own hreading, Option.map_none]
  · rw [h] at hreading
    have hblank := Clause.not_blank_of_statement hbare h
    rw [statements_statement h, statements_statement hreading,
      Clause.strippedStatement_lineFeeds hblank, Option.map_some]

end Revision

/-! ### Texts -/

/-- The text without the carriage returns that a line feed follows. -/
def Text.withLineFeeds (t : String) : String := String.ofList (Text.lineFeeds t.toList)

theorem Text.weave_map_lineFeeds {runs : List (List Char)} {quotes : List Char}
    (hquotes : ∀ q ∈ quotes, isQuote q = true) :
    weave (runs.map Text.lineFeeds) quotes = Text.lineFeeds (weave runs quotes) := by
  induction runs generalizing quotes with
  | nil => cases quotes <;> rfl
  | cons s runs ih =>
    cases quotes with
    | nil => rfl
    | cons q quotes =>
      have hq : isBlank q = false := isBlank_of_isQuote (hquotes q List.mem_cons_self)
      have hrest := ih fun c hc => hquotes c (List.mem_cons_of_mem q hc)
      rw [List.map_cons, weave, weave, hrest, lineFeeds_append_cons hq]

namespace Quoted

/-- The text without the carriage returns. -/
def lineFeeds (T : Quoted) : Quoted where
  runs := T.runs.map Text.lineFeeds
  quotes := T.quotes
  length_runs := by rw [List.length_map, T.length_runs]
  unquoted_of_mem s h := by
    obtain ⟨s, hs, rfl⟩ := List.mem_map.1 h
    exact (T.unquoted_of_mem s hs).of_sublist (lineFeeds_sublist s)
  isQuote_of_mem := T.isQuote_of_mem

variable {T : Quoted} {f : Revision} {k : Nat}

@[simp] theorem size_lineFeeds (T : Quoted) : T.lineFeeds.size = T.size := rfl

@[simp] theorem run_lineFeeds (T : Quoted) (k : Nat) :
    T.lineFeeds.run k = Text.lineFeeds (T.run k) :=
  List.getD_map T.runs [] Text.lineFeeds

@[simp] theorem quote_lineFeeds (T : Quoted) (k : Nat) : T.lineFeeds.quote k = T.quote k := rfl

theorem clauseAt_lineFeeds (T : Quoted) (k : Nat) :
    T.lineFeeds.clauseAt k = (T.clauseAt k).lineFeeds :=
  Clause.ext (run_lineFeeds T k) rfl (run_lineFeeds T (k + 1)) rfl

theorem revisedAt_lineFeeds (hf : f.KeepsLineFeeds) (hbare : ∀ k, ¬ HasBareImport (T.run k))
    (k : Nat) : T.lineFeeds.revisedAt f k = (T.revisedAt f k).map Clause.lineFeeds := by
  rw [revisedAt, revisedAt, size_lineFeeds, clauseAt_lineFeeds]
  split
  · exact hf (T.clauseAt k) (hbare k)
  · rfl

theorem revisedBefore_lineFeeds (hf : f.KeepsLineFeeds) (hbare : ∀ k, ¬ HasBareImport (T.run k))
    (k : Nat) : T.lineFeeds.revisedBefore f k = (T.revisedBefore f k).map Clause.lineFeeds := by
  cases k with
  | zero => rfl
  | succ k => exact revisedAt_lineFeeds hf hbare k

/-- A text without the carriage returns is revised as the text is. -/
theorem revise_lineFeeds (hf : f.KeepsLineFeeds) (hbare : ∀ k, ¬ HasBareImport (T.run k)) :
    T.lineFeeds.revise f = (T.revise f).lineFeeds := by
  refine ext_of_forall (by simp) (fun k => ?run) fun k => ?quote
  case run =>
    rw [run_lineFeeds, run_revise, run_revise, revisedRun, revisedRun,
      revisedBefore_lineFeeds hf hbare, revisedAt_lineFeeds hf hbare]
    cases T.revisedBefore f k with
    | some c => rfl
    | none =>
      cases T.revisedAt f k with
      | some c => rfl
      | none => exact run_lineFeeds T k
  case quote =>
    rw [quote_lineFeeds, quote_revise, quote_revise, revisedQuote, revisedQuote,
      revisedBefore_lineFeeds hf hbare, revisedAt_lineFeeds hf hbare]
    cases T.revisedBefore f k with
    | some c => rfl
    | none => cases T.revisedAt f k <;> rfl

/-- Carriage returns are left out within the runs. -/
theorem text_lineFeeds (T : Quoted) : T.lineFeeds.text = Text.lineFeeds T.text :=
  weave_map_lineFeeds T.isQuote_of_mem

theorem ofText_lineFeeds (text : List Char) :
    ofText (Text.lineFeeds text) = (ofText text).lineFeeds := by
  rw [← ofText_text (ofText text).lineFeeds, text_lineFeeds, text_ofText]

/-! ### Bare imports -/

/-- Each run of a text is cut out between words. -/
theorem exists_text_eq (hk : k ≤ T.size) : ∃ front back, T.text = front ++ T.run k ++ back ∧
    isWordSide front.getLast? = false ∧ isWordSide back.head? = false := by
  have hquote : ∀ j, isWord (T.quote j) = false := fun j => isWord_of_isQuote (T.isQuote_quote j)
  have hfront : ∃ front, T.text = front ++ T.textFrom k ∧ isWordSide front.getLast? = false := by
    induction k with
    | zero => exact ⟨[], rfl, rfl⟩
    | succ k ih =>
      obtain ⟨front, htext, -⟩ := ih (Nat.le_of_succ_le hk)
      rw [textFrom_of_lt hk] at htext
      refine ⟨front ++ T.run k ++ [T.quote k], by simp [htext], ?_⟩
      rw [List.getLast?_concat]
      exact hquote k
  obtain ⟨front, htext, hside⟩ := hfront
  rcases Nat.lt_or_eq_of_le hk with hlt | rfl
  · rw [textFrom_of_lt hlt, ← List.append_assoc] at htext
    exact ⟨front, _, htext, hside, hquote k⟩
  · rw [textFrom_size] at htext
    exact ⟨front, [], by rw [htext, List.append_nil], hside, rfl⟩

theorem not_hasBareImport_run (h : ¬ HasBareImport T.text) (k : Nat) :
    ¬ HasBareImport (T.run k) := by
  intro hrun
  rcases Nat.lt_or_ge T.size k with hk | hk
  · rw [run_eq_nil hk] at hrun
    exact absurd hrun (by decide)
  · obtain ⟨front, back, htext, hfront, hback⟩ := T.exists_text_eq hk
    exact h (htext ▸ hrun.append hfront hback)

/-- The rule for clauses of their own makes no bare import. -/
theorem not_hasBareImport_run_revise (hbare : ∀ k, ¬ HasBareImport (T.run k)) (k : Nat) :
    ¬ HasBareImport ((T.revise .ownClauses).run k) := by
  intro h
  cases hb : T.revisedBefore .ownClauses k with
  | some c =>
    rw [run_revise_of_before hb] at h
    cases k with
    | zero => cases hb
    | succ j =>
      have hstripped := Revision.strips_ownClauses (revise?_of_revisedAt hb)
      exact hstripped.not_hasBareImport_path (hbare (j + 1)) h
  | none =>
    cases hat : T.revisedAt .ownClauses k with
    | some c =>
      rw [run_revise_of_at hat] at h
      exact Clause.not_hasBareImport_head (hbare k) (revise?_of_revisedAt hat) h
    | none =>
      rw [run_revise_of_none hb hat] at h
      exact hbare k h

end Quoted

namespace Rule

open Quoted (ofText)

/-- Where no word `import` has nothing but white space between it and a word `from`, the rules make
the same of a text whether its lines end with a line feed or with a carriage return and a line
feed. -/
theorem applyRules_suffixRules_lineFeeds {t : String} (h : ¬ HasBareImport t.toList) :
    applyRules suffixRules (withLineFeeds t) = withLineFeeds (applyRules suffixRules t) := by
  have hbare : ∀ k, ¬ HasBareImport ((ofText t.toList).run k) :=
    Quoted.not_hasBareImport_run (by rwa [Quoted.text_ofText])
  have hfirst := Quoted.revise_lineFeeds Revision.keepsLineFeeds_ownClauses hbare
  have hsecond := Quoted.revise_lineFeeds Revision.keepsLineFeeds_statements
    (Quoted.not_hasBareImport_run_revise hbare)
  rw [← String.toList_inj, toList_applyRules, withLineFeeds, withLineFeeds, String.toList_ofList,
    String.toList_ofList, Quoted.ofText_lineFeeds, hfirst, hsecond, Quoted.text_lineFeeds,
    toList_applyRules]

/-- A statement over three lines, and a clause of its own over two. -/
theorem applyRules_suffixRules_lineFeeds_overLines :
    applyRules suffixRules
        (withLineFeeds "import a,\r\n  * as b\r\nfrom \"./a.js\";\r\nexport * from\r\n'./b.js'") =
      withLineFeeds (applyRules suffixRules
        "import a,\r\n  * as b\r\nfrom \"./a.js\";\r\nexport * from\r\n'./b.js'") :=
  applyRules_suffixRules_lineFeeds (by decide +kernel)

/-- The clause of a bare import is told by the number of its characters: here it is a carriage
return in one text and a space in the other. -/
example : HasBareImport "import \r\nfrom './a.js'".toList ∧
    applyRules suffixRules (withLineFeeds "import \r\nfrom './a.js'") = "import   from './a'" ∧
    applyRules suffixRules "import \r\nfrom './a.js'" = "import \r from './a'" := by
  simp only [← String.toList_inj, toList_applyRules, withLineFeeds, String.toList_ofList]
  decide +kernel

end Rule

end ImportSuffix
