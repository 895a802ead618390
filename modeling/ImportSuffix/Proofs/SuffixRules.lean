import ImportSuffix.Proofs.SuffixClause
import ImportSuffix.Proofs.SuffixMatches
import ImportSuffix.Proofs.Sweep

/-!
# The suffix rules as revisions

The rule `fromClause` is the revision `ownClauses`, and `importStatement` is `statements`
(`applyChars_fromClause`, `applyChars_importStatement`): the patterns match in the clauses with the
suffix and nowhere else, in each of them the leftmost match is the one its reading says, and what
the template makes of it is the stripped clause.
-/

namespace ImportSuffix

open Text
open Cursor (isWordSide)

namespace ClauseAt

variable {here : Cursor} {c : Clause} {before stem lead between r : List Char}

theorem of_reading_own (hc : c.WellFormed) (hrest : here.rest = c.text ++ r)
    (h : c.reading? = some (.own before stem)) :
    ClauseAt here c before stem r ∧ statementIn? before = none := by
  obtain ⟨hbefore, hpath, hnone⟩ := Clause.reading?_eq_own.1 h
  exact ⟨⟨hc, hrest, hbefore, hpath⟩, hnone⟩

theorem of_reading_statement (hc : c.WellFormed) (hrest : here.rest = c.text ++ r)
    (h : c.reading? = some (.statement lead between stem)) :
    ∃ before, ClauseAt here c before stem r ∧ statementIn? before = some (lead, between) := by
  obtain ⟨before, hbefore, hpath, hst⟩ := Clause.reading?_eq_statement.1 h
  exact ⟨before, ⟨hc, hrest, hbefore, hpath⟩, hst⟩

theorem exists_body (h : ClauseAt here c before stem r) (hst : HoldsStatement before lead between) :
    ∃ body, body ≠ [] ∧ c.text = lead ++ body ∧ here.rest = lead ++ (body ++ r) := by
  obtain ⟨-, -, d, gap, -, -, htext, -⟩ := h.exists_isTail
  have hbody : c.text = lead ++ ("import".toList ++ (between ++ d.text)) := by
    rw [htext, hst.eq, List.append_assoc, List.append_assoc]
  have hne : "import".toList ++ (between ++ d.text) ≠ [] := List.cons_ne_nil _ _
  refine ⟨_, hne, hbody, ?_⟩
  rw [h.rest, hbody, List.append_assoc]

theorem exists_reading? (h : ClauseAt here c before stem r) :
    ∃ reading, c.reading? = some reading :=
  Clause.exists_reading?_iff.2 ⟨endsInFrom_iff.2 ⟨before, h.before⟩, stem, h.path.symm⟩

end ClauseAt

namespace Rule

variable {here : Cursor} {c c' : Clause} {m : Match} {a b : Capture}
  {before stem lead between body u v w r : List Char} {q : Char} {captures : List Capture}
  {st : MatchState}

/-! ### What the templates make of a match -/

theorem groupNamed_cons_of_holds {m : Match} {name : String} (hm : m.captures = a :: captures)
    (ha : a.Holds name u) : m.groupNamed name = some u := by
  rw [Match.groupNamed, hm, List.find?_cons_of_pos (by rw [ha.1]; exact beq_self_eq_true _)]
  exact congrArg some ha.2

theorem groupNamed_cons_of_ne {m : Match} {name : String} (hm : m.captures = [a, b])
    (ha : a.name ≠ some name) (hb : b.Holds name u) : m.groupNamed name = some u := by
  rw [Match.groupNamed, hm, List.find?_cons_of_neg (by simpa using ha),
    List.find?_cons_of_pos (by rw [hb.1]; exact beq_self_eq_true _)]
  exact congrArg some hb.2

theorem hasGroup_defer_eq_false (hm : m.captures = [a, b]) (ha : a.name ≠ some deferGroup)
    (hb : b.name ≠ some deferGroup) : m.hasGroup deferGroup = false := by
  simp [Match.hasGroup, hm, ha, hb]

theorem replacement_fromClause (hm : m.captures = [a, b]) (ha : a.Holds "path" stem)
    (hb : b.Holds "quote" [q]) :
    fromClause.replacement m = "from ".toList ++ q :: (stem ++ [q]) := by
  have hpath : m.groupNamed "path" = some stem := groupNamed_cons_of_holds hm ha
  have hquote : m.groupNamed "quote" = some [q] :=
    groupNamed_cons_of_ne hm (by rw [ha.1]; decide) hb
  have hdefer : m.hasGroup deferGroup = false :=
    hasGroup_defer_eq_false hm (by rw [ha.1]; decide) (by rw [hb.1]; decide)
  simp [replacement, hdefer, fromClause, Template.fill, Template.chars, Template.fillPiece,
    GroupRef.lookup, hpath, hquote]

theorem replacement_importStatement (hm : m.captures = [a, b]) (ha : a.Holds "path" stem)
    (hb : b.Holds "clause" u) :
    importStatement.replacement m =
      "import ".toList ++ u ++ " from ".toList ++ '\'' :: (stem ++ ['\'']) := by
  have hpath : m.groupNamed "path" = some stem := groupNamed_cons_of_holds hm ha
  have hclause : m.groupNamed "clause" = some u :=
    groupNamed_cons_of_ne hm (by rw [ha.1]; decide) hb
  have hdefer : m.hasGroup deferGroup = false :=
    hasGroup_defer_eq_false hm (by rw [ha.1]; decide) (by rw [hb.1]; decide)
  simp [replacement, hdefer, importStatement, Template.fill, Template.chars, Template.fillPiece,
    GroupRef.lookup, hpath, hclause]

theorem hasGroup_defer_eq_true (hm : ∃ a ∈ m.captures, a.name = some deferGroup) :
    m.hasGroup deferGroup = true := by
  obtain ⟨a, ha, hname⟩ := hm
  refine List.any_eq_true.2 ⟨a, ha, ?_⟩
  rw [hname]
  exact beq_self_eq_true _

/-- A deferred match stays as it is. -/
theorem replacement_of_defer {rule : Rule} (hm : m.hasGroup deferGroup = true) :
    rule.replacement m = m.text :=
  if_pos hm

/-! ### Matches in a given clause -/

theorem of_matchAt_fromClause_at (hprev : isWordSide here.prev = false)
    (h : ClauseAt here c before stem r) (hrest : here.rest = v ++ u) (hv : Unquoted v)
    (hmatch : fromClausePattern.matchAt (here.past v u) = some st) :
    st.place = here.past c.text r ∧
      ((v = before ∧ ∃ a b, a.Holds "path" stem ∧ b.Holds "quote" [c.opening] ∧
          st.captures = [a, b]) ∨
        ((∃ between, HoldsStatement before v between) ∧
          ∃ a ∈ st.captures, a.name = some deferGroup)) := by
  obtain ⟨c', before', stem', r', h', hplace, hkind⟩ :=
    of_matchAt_fromClause hprev hrest hv hmatch
  obtain ⟨rfl, rfl, rfl, rfl⟩ := h.unique h'
  exact ⟨hplace, hkind⟩

theorem of_matchAt_importStatement_at (hprev : isWordSide here.prev = false)
    (h : ClauseAt here c before stem r) (hrest : here.rest = v ++ u) (hv : Unquoted v)
    (hmatch : importStatementPattern.matchAt (here.past v u) = some st) :
    st.place = here.past c.text r ∧ ∃ between, HoldsStatement before v between ∧
      ∃ a b, a.Holds "path" stem ∧ b.Holds "clause" (clauseIn between) ∧ st.captures = [a, b] := by
  obtain ⟨c', before', stem', between, r', h', hplace, hst, hcaptures⟩ :=
    of_matchAt_importStatement hprev hrest hv hmatch
  obtain ⟨rfl, rfl, rfl, rfl⟩ := h.unique h'
  exact ⟨hplace, between, hst, hcaptures⟩

/-- What is in front of a statement is shorter than what is in front of its `from`. -/
theorem length_lt_of_holdsStatement (h : HoldsStatement before lead between) :
    lead.length < before.length := by
  rw [h.eq, List.append_assoc, List.length_append]
  exact Nat.lt_add_of_pos_right (Nat.succ_pos _)

theorem length_lt_of_append (h : before = v ++ w) (hw : w ≠ []) : v.length < before.length := by
  rw [h, List.length_append]
  exact Nat.lt_add_of_pos_right (List.length_pos_iff.2 hw)

/-! ### Clauses of their own -/

/-- In front of the `from` of a clause of its own there is no match. -/
theorem matchAt_fromClause_before_own (hprev : isWordSide here.prev = false)
    (h : ClauseAt here c before stem r) (hnone : statementIn? before = none)
    (hrest : here.rest = before ++ u) (hv : before = v ++ w) (hw : w ≠ []) :
    fromClausePattern.matchAt (here.past v (w ++ u)) = none := by
  rw [Option.eq_none_iff_forall_ne_some]
  intro st hmatch
  have hunquoted : Unquoted (v ++ w) := hv ▸ h.unquoted_before
  have hrest' : here.rest = v ++ (w ++ u) := by rw [hrest, hv, List.append_assoc]
  obtain ⟨-, ⟨rfl, -⟩ | ⟨⟨between, hst⟩, -⟩⟩ :=
    of_matchAt_fromClause_at hprev h hrest' (unquoted_append.1 hunquoted).1 hmatch
  · exact absurd (length_lt_of_append hv hw) (Nat.lt_irrefl _)
  · obtain ⟨l, b, hsome, -⟩ := hst.exists_statementIn?
    rw [hnone] at hsome
    cases hsome

theorem matchAt_fromClause_eq_own (hprev : isWordSide here.prev = false)
    (h : ClauseAt here c before stem r) (hrest : here.rest = before ++ u) :
    ∃ a b, a.Holds "path" stem ∧ b.Holds "quote" [c.opening] ∧
      fromClausePattern.matchAt (here.past before u) = some ⟨here.past c.text r, [a, b]⟩ := by
  obtain ⟨⟨place, captures⟩, hmatch⟩ :=
    Option.ne_none_iff_exists'.1 (matchAt_fromClause_own hprev h hrest)
  obtain ⟨rfl, ⟨-, a, b, ha, hb, rfl⟩ | ⟨⟨between, hst⟩, -⟩⟩ :=
    of_matchAt_fromClause_at hprev h hrest h.unquoted_before hmatch
  · exact ⟨a, b, ha, hb, hmatch⟩
  · exact absurd (length_lt_of_holdsStatement hst) (Nat.lt_irrefl _)

/-! ### Statements -/

/-- In front of the leftmost `import` of a statement there is no match. -/
theorem matchAt_fromClause_before_statement (hprev : isWordSide here.prev = false)
    (h : ClauseAt here c before stem r) (hst : statementIn? before = some (lead, between))
    (hrest : here.rest = lead ++ u) (hv : lead = v ++ w) (hw : w ≠ []) :
    fromClausePattern.matchAt (here.past v (w ++ u)) = none := by
  rw [Option.eq_none_iff_forall_ne_some]
  intro st hmatch
  have hunquoted : Unquoted (v ++ w) := hv ▸ h.unquoted_lead (of_statementIn? hst)
  have hrest' : here.rest = v ++ (w ++ u) := by rw [hrest, hv, List.append_assoc]
  have hlt := length_lt_of_append hv hw
  obtain ⟨-, ⟨rfl, -⟩ | ⟨⟨between', hst'⟩, -⟩⟩ :=
    of_matchAt_fromClause_at hprev h hrest' (unquoted_append.1 hunquoted).1 hmatch
  · exact absurd (length_lt_of_holdsStatement (of_statementIn? hst)) (Nat.lt_asymm hlt)
  · exact absurd (hst'.length_le hst) (Nat.not_le.2 hlt)

theorem matchAt_fromClause_eq_statement (hprev : isWordSide here.prev = false)
    (h : ClauseAt here c before stem r) (hst : statementIn? before = some (lead, between))
    (hrest : here.rest = lead ++ u) :
    ∃ captures, (∃ a ∈ captures, a.name = some deferGroup) ∧
      fromClausePattern.matchAt (here.past lead u) = some ⟨here.past c.text r, captures⟩ := by
  have hholds := of_statementIn? hst
  obtain ⟨⟨place, captures⟩, hmatch⟩ :=
    Option.ne_none_iff_exists'.1 (matchAt_fromClause_statement hprev h hholds hrest)
  obtain ⟨rfl, ⟨rfl, -⟩ | ⟨-, hdefer⟩⟩ :=
    of_matchAt_fromClause_at hprev h hrest (h.unquoted_lead hholds) hmatch
  · exact absurd (length_lt_of_holdsStatement hholds) (Nat.lt_irrefl _)
  · exact ⟨captures, hdefer, hmatch⟩

theorem matchAt_importStatement_before (hprev : isWordSide here.prev = false)
    (h : ClauseAt here c before stem r) (hst : statementIn? before = some (lead, between))
    (hrest : here.rest = lead ++ u) (hv : lead = v ++ w) (hw : w ≠ []) :
    importStatementPattern.matchAt (here.past v (w ++ u)) = none := by
  rw [Option.eq_none_iff_forall_ne_some]
  intro st hmatch
  have hunquoted : Unquoted (v ++ w) := hv ▸ h.unquoted_lead (of_statementIn? hst)
  have hrest' : here.rest = v ++ (w ++ u) := by rw [hrest, hv, List.append_assoc]
  obtain ⟨-, between', hst', -⟩ :=
    of_matchAt_importStatement_at hprev h hrest' (unquoted_append.1 hunquoted).1 hmatch
  exact absurd (hst'.length_le hst) (Nat.not_le.2 (length_lt_of_append hv hw))

theorem matchAt_importStatement_eq (hprev : isWordSide here.prev = false)
    (h : ClauseAt here c before stem r) (hst : statementIn? before = some (lead, between))
    (hrest : here.rest = lead ++ u) :
    ∃ a b, a.Holds "path" stem ∧ b.Holds "clause" (clauseIn between) ∧
      importStatementPattern.matchAt (here.past lead u) = some ⟨here.past c.text r, [a, b]⟩ := by
  have hholds := of_statementIn? hst
  obtain ⟨⟨place, captures⟩, hmatch⟩ :=
    Option.ne_none_iff_exists'.1 (matchAt_importStatement hprev h hholds hrest)
  obtain ⟨rfl, between', hst', a, b, ha, hb, rfl⟩ :=
    of_matchAt_importStatement_at hprev h hrest (h.unquoted_lead hholds) hmatch
  obtain rfl : between' = between := List.append_cancel_left (hst'.eq.symm.trans hholds.eq)
  exact ⟨a, b, ha, hb, hmatch⟩

/-! ### The leftmost match in a clause -/

theorem ne_nil_of_isTail {d : Clause} {gap : List Char} (hd : d.IsTail gap stem) : d.text ≠ [] := by
  rw [Clause.text, hd.head]
  exact List.cons_ne_nil _ _

section

variable (hprev : isWordSide here.prev = false) (hc : c.WellFormed)
  (hrest : here.rest = c.text ++ r)
include hprev hc hrest

/-- In a clause of its own the match is the clause from its `from` on; what is in front stays. -/
theorem hits_fromClause_own (h : c.reading? = some (.own before stem)) :
    ∃ m, fromClausePattern.Hits here c r before m ∧ m.hasGroup deferGroup = false ∧
      before ++ fromClause.replacement m = (c.strippedOwn before stem).text := by
  obtain ⟨h, hnone⟩ := ClauseAt.of_reading_own hc hrest h
  obtain ⟨-, -, d, gap, hd, hopening, htext, hrest'⟩ := h.exists_isTail
  obtain ⟨a, b, ha, hb, hmatch⟩ := matchAt_fromClause_eq_own hprev h hrest'
  have hbefore : ∀ v w, before = v ++ w → w ≠ [] →
      fromClausePattern.matchAt (here.past v (w ++ (d.text ++ r))) = none := by
    intro v w hv hw
    exact matchAt_fromClause_before_own hprev h hnone hrest' hv hw
  refine ⟨_, .of_matchAt htext (ne_nil_of_isTail hd) hbefore hmatch, ?_, ?_⟩
  · exact hasGroup_defer_eq_false rfl (by rw [ha.1]; decide) (by rw [hb.1]; decide)
  · rw [replacement_fromClause rfl ha hb, Clause.text, Clause.strippedOwn, List.append_assoc]

/-- In a clause that ends a statement the match is the statement, and is deferred. -/
theorem hits_fromClause_statement (h : c.reading? = some (.statement lead between stem)) :
    ∃ m, fromClausePattern.Hits here c r lead m ∧ m.hasGroup deferGroup = true := by
  obtain ⟨before, h, hst⟩ := ClauseAt.of_reading_statement hc hrest h
  obtain ⟨body, hbody, htext, hrest'⟩ := h.exists_body (of_statementIn? hst)
  obtain ⟨captures, hdefer, hmatch⟩ := matchAt_fromClause_eq_statement hprev h hst hrest'
  have hbefore : ∀ v w, lead = v ++ w → w ≠ [] →
      fromClausePattern.matchAt (here.past v (w ++ (body ++ r))) = none := by
    intro v w hv hw
    exact matchAt_fromClause_before_statement hprev h hst hrest' hv hw
  exact ⟨_, .of_matchAt htext hbody hbefore hmatch, hasGroup_defer_eq_true hdefer⟩

/-- The second rule has the same match in a statement. -/
theorem hits_importStatement (h : c.reading? = some (.statement lead between stem)) :
    ∃ m, importStatementPattern.Hits here c r lead m ∧
      lead ++ importStatement.replacement m =
        (Clause.strippedStatement lead between stem).text := by
  obtain ⟨before, h, hst⟩ := ClauseAt.of_reading_statement hc hrest h
  obtain ⟨body, hbody, htext, hrest'⟩ := h.exists_body (of_statementIn? hst)
  obtain ⟨a, b, ha, hb, hmatch⟩ := matchAt_importStatement_eq hprev h hst hrest'
  have hbefore : ∀ v w, lead = v ++ w → w ≠ [] →
      importStatementPattern.matchAt (here.past v (w ++ (body ++ r))) = none := by
    intro v w hv hw
    exact matchAt_importStatement_before hprev h hst hrest' hv hw
  refine ⟨_, .of_matchAt htext hbody hbefore hmatch, ?_⟩
  rw [replacement_importStatement rfl ha hb]
  simp only [Clause.text, Clause.strippedStatement, List.append_assoc]

end

/-! ### The rules -/

theorem treats_fromClause : fromClause.Treats Revision.ownClauses where
  sound := by
    intro here u r st hprev hrest hu hmatch
    obtain ⟨c, before, stem, r', h, -⟩ := of_matchAt_fromClause hprev hrest hu hmatch
    obtain ⟨⟨before', stem'⟩ | ⟨lead, between, stem'⟩, hreading⟩ := h.exists_reading?
    · exact ⟨c, _, r', h.wellFormed, h.rest, Revision.ownClauses_own hreading⟩
    · exact ⟨c, _, r', h.wellFormed, h.rest, Revision.ownClauses_statement hreading⟩
  hit := by
    intro here c c' r hprev hc hrest hrev
    cases hreading : c.reading? with
    | none => simp [Revision.ownClauses, Revision.byReading, hreading] at hrev
    | some reading =>
      cases reading with
      | own before stem =>
        rw [Revision.ownClauses_own hreading] at hrev
        obtain rfl := Option.some.inj hrev
        obtain ⟨m, hhits, -, hmake⟩ := hits_fromClause_own hprev hc hrest hreading
        exact ⟨before, m, hhits, hmake⟩
      | statement lead between stem =>
        rw [Revision.ownClauses_statement hreading] at hrev
        obtain rfl := Option.some.inj hrev
        obtain ⟨m, hhits, hdefer⟩ := hits_fromClause_statement hprev hc hrest hreading
        exact ⟨lead, m, hhits, by rw [replacement_of_defer hdefer, hhits.text]⟩

theorem treats_importStatement : importStatement.Treats Revision.statements where
  sound := by
    intro here u r st hprev hrest hu hmatch
    obtain ⟨c, before, stem, between, r', h, -, hst, -⟩ :=
      of_matchAt_importStatement hprev hrest hu hmatch
    obtain ⟨l, b, hsome, -⟩ := hst.exists_statementIn?
    have hreading : c.reading? = some (.statement l b stem) :=
      Clause.reading?_eq_statement.2 ⟨before, h.before, h.path, hsome⟩
    exact ⟨c, _, r', h.wellFormed, h.rest, Revision.statements_statement hreading⟩
  hit := by
    intro here c c' r hprev hc hrest hrev
    cases hreading : c.reading? with
    | none => simp [Revision.statements, Revision.byReading, hreading] at hrev
    | some reading =>
      cases reading with
      | own before stem =>
        rw [Revision.statements_own hreading] at hrev
        cases hrev
      | statement lead between stem =>
        rw [Revision.statements_statement hreading] at hrev
        obtain rfl := Option.some.inj hrev
        exact ⟨lead, hits_importStatement hprev hc hrest hreading⟩

theorem applyChars_fromClause (text : List Char) :
    fromClause.applyChars text = ((Quoted.ofText text).revise Revision.ownClauses).text :=
  treats_fromClause.applyChars text

theorem applyChars_importStatement (text : List Char) :
    importStatement.applyChars text = ((Quoted.ofText text).revise Revision.statements).text :=
  treats_importStatement.applyChars text

/-- On a text cut at its quotes, the two rules are two revisions, one after the other. -/
theorem ofText_applyRules (text : String) :
    Quoted.ofText (applyRules suffixRules text).toList =
      ((Quoted.ofText text.toList).revise Revision.ownClauses).revise Revision.statements := by
  rw [suffixRules, applyRules_cons, applyRules_cons, applyRules_nil, toList_apply, toList_apply,
    applyChars_importStatement, applyChars_fromClause, Quoted.ofText_text, Quoted.ofText_text]

end Rule

end ImportSuffix
