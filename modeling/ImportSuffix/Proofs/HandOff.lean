import ImportSuffix.Proofs.SuffixRewrite
import ImportSuffix.Proofs.Tiling
import Mathlib.Data.List.Sort

/-!
# What the first suffix rule leaves to the second

`fromClause` defers the clauses that end a statement, and `importStatement` is for the statements.
The two patterns look for a statement each in its own way, and the second rule does so in another
text, the one that the first made. Still they agree (`Rule.importStatement_takesOver`).

In a statement both patterns have one match, and its place can be told from the reading of the
clause: it begins at the `import` of the reading and ends with the clause (`Rule.TakesStatement`).
So in one text the two matches are at the same place. The first rule keeps the clause of a
statement, and what it makes of the text behind depends on that text alone. So in the text that it
makes the second rule has its match right behind what became of the text in front.
-/

namespace ImportSuffix

theorem Quoted.StandsAt.rest_eq_clauseAt {T : Quoted} {k : Nat} {here : Cursor} {r : Reading}
    (hh : T.StandsAt k here) (hreading : T.readingAt? k = some r) :
    here.rest = (T.clauseAt k).text ++ T.textFrom (k + 2) :=
  hh.rest.trans (textFrom_eq_clauseAt (lt_size_of_readingAt? hreading))

namespace Rule

open Quoted (ofText)

/-- That a match is the statement that begins in the run of that number: in the run `lead` stands in
front of it, and `after` goes on behind its clause. -/
structure TakesStatement (rule : Rule) (f : Revision) (T : Quoted) (k : Nat) (lead : List Char)
    (m : Match) (after : List Segment) : Prop where
  reading : ∃ between stem, T.readingAt? k = some (.statement lead between stem)
  text : (T.clauseAt k).text = lead ++ m.text
  after : rule.Sweeps f T (k + 2) after

variable {rule rule' : Rule} {f f' : Revision} {T : Quoted} {k : Nat} {m m' : Match}
  {before before' after after' : List Segment} {lead between stem : List Char}

/-! ### The matches in a clause -/

theorem TakesAt.ne_nil (h : rule.TakesAt f T k m after) : m.text ≠ [] := by
  obtain ⟨here, lead, -, hhits, -⟩ := h
  exact hhits.ne_nil

theorem TakesAt.hasGroup_own {head : List Char} (h : fromClause.TakesAt .ownClauses T k m after)
    (hreading : T.readingAt? k = some (.own head stem)) : m.hasGroup deferGroup = false := by
  obtain ⟨here, lead, hh, hhits, -⟩ := h
  obtain ⟨m', hhits', hown, -⟩ := hits_fromClause_own hh.prev (T.wellFormed_clauseAt k)
    (hh.rest_eq_clauseAt hreading) (Quoted.reading?_of_readingAt? hreading)
  obtain ⟨-, rfl⟩ := hhits.unique hhits'
  exact hown

theorem TakesAt.deferred (h : fromClause.TakesAt .ownClauses T k m after)
    (hreading : T.readingAt? k = some (.statement lead between stem)) :
    m.hasGroup deferGroup = true ∧ fromClause.TakesStatement .ownClauses T k lead m after := by
  obtain ⟨here, lead', hh, hhits, hafter⟩ := h
  obtain ⟨m', hhits', hdefer⟩ := hits_fromClause_statement hh.prev (T.wellFormed_clauseAt k)
    (hh.rest_eq_clauseAt hreading) (Quoted.reading?_of_readingAt? hreading)
  obtain ⟨rfl, rfl⟩ := hhits.unique hhits'
  exact ⟨hdefer, ⟨between, stem, hreading⟩, hhits.text, hafter⟩

theorem TakesAt.statement (h : importStatement.TakesAt .statements T k m after)
    (hreading : T.readingAt? k = some (.statement lead between stem)) :
    importStatement.TakesStatement .statements T k lead m after := by
  obtain ⟨here, lead', hh, hhits, hafter⟩ := h
  obtain ⟨m', hhits', -⟩ := hits_importStatement hh.prev (T.wellFormed_clauseAt k)
    (hh.rest_eq_clauseAt hreading) (Quoted.reading?_of_readingAt? hreading)
  obtain ⟨rfl, rfl⟩ := hhits.unique hhits'
  exact ⟨⟨between, stem, hreading⟩, hhits.text, hafter⟩

/-! ### The matches in a text -/

/-- What the first rule defers is a statement. -/
theorem takesStatement_fromClause
    (h : fromClause.pattern.segments T.text = before ++ .found m :: after)
    (hdefer : m.hasGroup deferGroup = true) :
    ∃ k lead, fromClause.TakesStatement .ownClauses T k lead m after := by
  have hsweeps := treats_fromClause.sweeps_segments T
  rw [h] at hsweeps
  obtain ⟨k, c, hat, htakes⟩ := hsweeps.of_found
  rcases hreading : T.readingAt? k with _ | ⟨head, stem⟩ | ⟨lead, between, stem⟩
  · rw [Quoted.revisedAt_ownClauses_eq_none.2 hreading] at hat
    cases hat
  · rw [htakes.hasGroup_own hreading] at hdefer
    cases hdefer
  · exact ⟨k, lead, (htakes.deferred hreading).2⟩

/-- What the second rule finds is a statement. -/
theorem takesStatement_importStatement
    (h : importStatement.pattern.segments T.text = before ++ .found m :: after) :
    ∃ k lead, importStatement.TakesStatement .statements T k lead m after := by
  have hsweeps := treats_importStatement.sweeps_segments T
  rw [h] at hsweeps
  obtain ⟨k, c, hat, htakes⟩ := hsweeps.of_found
  rw [Quoted.revisedAt_statements] at hat
  rcases hreading : T.readingAt? k with _ | ⟨head, stem⟩ | ⟨lead, between, stem⟩
  · rw [hreading] at hat
    cases hat
  · rw [hreading] at hat
    cases hat
  · exact ⟨k, lead, htakes.statement hreading⟩

/-- The first rule defers every statement. -/
theorem exists_takesStatement_fromClause
    (hreading : T.readingAt? k = some (.statement lead between stem)) :
    ∃ before m after, fromClause.pattern.segments T.text = before ++ .found m :: after ∧
      m.hasGroup deferGroup = true ∧ fromClause.TakesStatement .ownClauses T k lead m after := by
  obtain ⟨before, m, after, hsegments, htakes⟩ :=
    (treats_fromClause.sweeps_segments T).exists_found (Nat.zero_le k)
      (Quoted.revisedAt_ownClauses_statement hreading)
  exact ⟨before, m, after, hsegments, htakes.deferred hreading⟩

/-- The second rule finds every statement. -/
theorem exists_takesStatement_importStatement
    (hreading : T.readingAt? k = some (.statement lead between stem)) :
    ∃ before m after, importStatement.pattern.segments T.text = before ++ .found m :: after ∧
      importStatement.TakesStatement .statements T k lead m after := by
  have hat : T.revisedAt .statements k = some (Clause.strippedStatement lead between stem) := by
    rw [Quoted.revisedAt_statements, hreading]
    rfl
  obtain ⟨before, m, after, hsegments, htakes⟩ :=
    (treats_importStatement.sweeps_segments T).exists_found (Nat.zero_le k) hat
  exact ⟨before, m, after, hsegments, htakes.statement hreading⟩

/-! ### Places -/

/-- The matches of a rule are not empty. -/
theorem Treats.ne_nil (h : rule.Treats f) {text : List Char}
    (hm : m ∈ rule.pattern.findAll text) : m.text ≠ [] := by
  obtain ⟨before, after, hsegments⟩ := Pattern.mem_findAll.1 hm
  have hsweeps := h.sweeps_segments (ofText text)
  rw [Quoted.text_ofText, hsegments] at hsweeps
  obtain ⟨k, c, -, htakes⟩ := hsweeps.of_found
  exact htakes.ne_nil

/-- Each match of a rule begins behind the ones before it. -/
theorem Treats.pairwise_span (h : rule.Treats f) (text : List Char) :
    ((rule.pattern.findAll text).map Match.span).Pairwise fun a b => a.1 < b.1 := by
  have htiles := rule.pattern.tiles_segments text
  rw [List.pairwise_map]
  refine htiles.pairwise.imp_of_mem fun {m m'} hm _ hle => ?_
  obtain ⟨hstart, hmatch⟩ := htiles.of_found (mem_filterMap_match?.1 hm)
  have hlen := Pattern.length_text_of_matchAt hstart hmatch
  have hpos : 0 < m.text.length := List.length_pos_iff.2 (h.ne_nil hm)
  show m.start.pos < m'.start.pos
  omega

/-- What stands in front of a statement, the statement and what follows on its clause are the
text. -/
theorem TakesStatement.cover (h : rule.TakesStatement f T k lead m after)
    (hsegments : rule.pattern.segments T.text = before ++ .found m :: after) :
    before.flatMap Segment.source ++ (m.text ++ T.textFrom (k + 2)) = T.text := by
  rw [← h.after.flatMap_source]
  exact Pattern.source_of_segments hsegments

/-- In one text the same statement is at the same place. -/
theorem TakesStatement.span_eq (h : rule.TakesStatement f T k lead m after)
    (h' : rule'.TakesStatement f' T k lead m' after')
    (hsegments : rule.pattern.segments T.text = before ++ .found m :: after)
    (hsegments' : rule'.pattern.segments T.text = before' ++ .found m' :: after') :
    m.span = m'.span := by
  have htext : m.text = m'.text := List.append_cancel_left (h.text.symm.trans h'.text)
  have hcover := h'.cover hsegments'
  rw [← h.cover hsegments, htext] at hcover
  have hbefore : before'.flatMap Segment.source = before.flatMap Segment.source :=
    List.append_cancel_right hcover
  rw [Pattern.span_of_segments hsegments, Pattern.span_of_segments hsegments', hbefore, htext]

/-- The second rule finds a match where the first one defers one, and nowhere else. -/
theorem mem_span_importStatement {T : Quoted} {a : Nat × Nat} :
    a ∈ (importStatement.pattern.findAll T.text).map Match.span ↔
      a ∈ ((fromClause.pattern.findAll T.text).filter (·.hasGroup deferGroup)).map Match.span := by
  constructor
  · intro ha
    obtain ⟨m, hm, rfl⟩ := List.mem_map.1 ha
    obtain ⟨before, after, hsegments⟩ := Pattern.mem_findAll.1 hm
    obtain ⟨k, lead, h⟩ := takesStatement_importStatement hsegments
    obtain ⟨between, stem, hreading⟩ := h.reading
    obtain ⟨before', m', after', hsegments', hdefer, h'⟩ :=
      exists_takesStatement_fromClause hreading
    have hm' := Pattern.mem_findAll.2 ⟨before', after', hsegments'⟩
    exact List.mem_map.2
      ⟨m', List.mem_filter.2 ⟨hm', hdefer⟩, h'.span_eq h hsegments' hsegments⟩
  · intro ha
    obtain ⟨m, hm, rfl⟩ := List.mem_map.1 ha
    obtain ⟨hm, hdefer⟩ := List.mem_filter.1 hm
    obtain ⟨before, after, hsegments⟩ := Pattern.mem_findAll.1 hm
    obtain ⟨k, lead, h⟩ := takesStatement_fromClause hsegments hdefer
    obtain ⟨between, stem, hreading⟩ := h.reading
    obtain ⟨before', m', after', hsegments', h'⟩ := exists_takesStatement_importStatement hreading
    have hm' := Pattern.mem_findAll.2 ⟨before', after', hsegments'⟩
    exact List.mem_map.2 ⟨m', hm', h'.span_eq h hsegments' hsegments⟩

/-- The spans of both lists ascend, so they are told from what is in them. -/
theorem map_span_importStatement (T : Quoted) :
    (importStatement.pattern.findAll T.text).map Match.span =
      ((fromClause.pattern.findAll T.text).filter (·.hasGroup deferGroup)).map Match.span := by
  have hascend := treats_importStatement.pairwise_span T.text
  have hascend' : (((fromClause.pattern.findAll T.text).filter (·.hasGroup deferGroup)).map
      Match.span).Pairwise fun a b => a.1 < b.1 :=
    (treats_fromClause.pairwise_span T.text).sublist (List.filter_sublist.map Match.span)
  exact List.Pairwise.eq_of_mem_iff (r := InvImage (· < ·) Prod.fst) hascend hascend'
    fun _ => mem_span_importStatement

/-! ### In the text of the first rule -/

/-- The first rule puts a deferred statement back between what it makes of the text in front of it
and of the text behind it, and the second rule has a match right there. -/
theorem TakesStatement.survives (h : fromClause.TakesStatement .ownClauses T k lead m after)
    (hsegments : fromClause.pattern.segments T.text = before ++ .found m :: after)
    (hdefer : m.hasGroup deferGroup = true) :
    (T.revise .ownClauses).text = before.flatMap fromClause.replaceSegment ++
        (m.text ++ after.flatMap fromClause.replaceSegment) ∧
      ∃ m' ∈ importStatement.pattern.findAll (T.revise .ownClauses).text, m'.text = m.text ∧
        m'.span = ((before.flatMap fromClause.replaceSegment).length,
          (before.flatMap fromClause.replaceSegment).length + m.text.length) := by
  obtain ⟨between, stem, hreading⟩ := h.reading
  have hat := Quoted.revisedAt_ownClauses_statement hreading
  have hkept : fromClause.replacement m = m.text := replacement_of_defer hdefer
  have hmade : (T.revise .ownClauses).text = before.flatMap fromClause.replaceSegment ++
      (m.text ++ after.flatMap fromClause.replaceSegment) := by
    have happly := applyChars_fromClause T.text
    rw [Quoted.ofText_text, applyChars, hsegments, List.flatMap_append, List.flatMap_cons,
      replaceSegment, hkept] at happly
    exact happly.symm
  obtain ⟨before', m', after', hsegments', h'⟩ :=
    exists_takesStatement_importStatement (Quoted.readingAt?_revise_of_statement hreading)
  have htext : m'.text = m.text := by
    have hclause := h'.text
    rw [Quoted.clauseAt_revise hat, h.text] at hclause
    exact (List.append_cancel_left hclause).symm
  have hafter : after.flatMap fromClause.replaceSegment = (T.revise .ownClauses).textFrom (k + 2) :=
    h.after.flatMap_replaceSegment (Quoted.revisedAt_succ hat)
  have hbefore : before'.flatMap Segment.source = before.flatMap fromClause.replaceSegment := by
    have hcover := h'.cover hsegments'
    rw [hmade, htext, hafter] at hcover
    exact List.append_cancel_right hcover
  refine ⟨hmade, m', Pattern.mem_findAll.2 ⟨before', after', hsegments'⟩, htext, ?_⟩
  rw [Pattern.span_of_segments hsegments', hbefore, htext]

/-- The second rule takes over what the first one leaves. In every text its matches are, in order
and place for place, the matches that the first rule defers. And each of those stands in the text
that the first rule makes, between what became of the text in front of it and of the text behind it,
and is matched by the second rule there. -/
theorem importStatement_takesOver (t : String) :
    (importStatement.pattern.findAll t.toList).map Match.span =
        ((fromClause.pattern.findAll t.toList).filter (·.hasGroup deferGroup)).map Match.span ∧
      ∀ m ∈ (fromClause.pattern.findAll t.toList).filter (·.hasGroup deferGroup),
        ∃ before after, fromClause.pattern.segments t.toList = before ++ .found m :: after ∧
          (fromClause.apply t).toList = before.flatMap fromClause.replaceSegment ++
            (m.text ++ after.flatMap fromClause.replaceSegment) ∧
          ∃ m' ∈ importStatement.pattern.findAll (fromClause.apply t).toList, m'.text = m.text ∧
            m'.span = ((before.flatMap fromClause.replaceSegment).length,
              (before.flatMap fromClause.replaceSegment).length + m.text.length) := by
  have hspans := map_span_importStatement (ofText t.toList)
  rw [Quoted.text_ofText] at hspans
  refine ⟨hspans, fun m hm => ?_⟩
  obtain ⟨hm, hdefer⟩ := List.mem_filter.1 hm
  obtain ⟨before, after, hsegments⟩ := Pattern.mem_findAll.1 hm
  refine ⟨before, after, hsegments, ?_⟩
  rw [toList_apply, applyChars_fromClause]
  rw [← Quoted.text_ofText t.toList] at hsegments
  obtain ⟨k, lead, h⟩ := takesStatement_fromClause hsegments hdefer
  exact h.survives hsegments hdefer

/-- The first rule shortens the clause in front of a statement, and the second one matches the
statement where it then is. -/
theorem importStatement_takesOver_behind_clause :
    ∃ m ∈ fromClause.pattern.findAll "export * from  './b.js'; import a from './a.js'".toList,
      m.hasGroup deferGroup = true ∧ m.span = (25, 47) ∧
        ∃ m' ∈ importStatement.pattern.findAll
          (fromClause.apply "export * from  './b.js'; import a from './a.js'").toList,
          m'.text = m.text ∧ m'.span = (21, 43) := by
  obtain ⟨m, hm, hdefer, hspan⟩ :
      ∃ m ∈ fromClause.pattern.findAll "export * from  './b.js'; import a from './a.js'".toList,
        m.hasGroup deferGroup = true ∧ m.span = (25, 47) := by
    rw [Pattern.findAll, Pattern.segments_eq]
    decide +kernel
  have hplace : ∀ m' ∈ importStatement.pattern.findAll
      (fromClause.apply "export * from  './b.js'; import a from './a.js'").toList,
      m'.span = (21, 43) := by
    rw [toList_apply, applyChars, Pattern.segments_eq, Pattern.findAll, Pattern.segments_eq]
    decide +kernel
  obtain ⟨-, -, -, -, m', hm', htext, -⟩ :=
    (importStatement_takesOver "export * from  './b.js'; import a from './a.js'").2 m
      (List.mem_filter.2 ⟨hm, hdefer⟩)
  exact ⟨m, hm, hdefer, hspan, m', hm', htext, hplace m' hm'⟩

end Rule

end ImportSuffix
