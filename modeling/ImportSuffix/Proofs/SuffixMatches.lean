import ImportSuffix.Proofs.Revision
import ImportSuffix.Proofs.SuffixPatterns

/-!
# Where the patterns of the suffix rules match

A match of either pattern ends with the closing quote of a clause that has the suffix (`ClauseAt`).
It begins in the head of that clause: at the `from` with which the head ends, or at a word `import`
with room for an import clause before that `from` (`of_matchAt_fromClause`,
`of_matchAt_importStatement`). In the first case the pattern `fromClausePattern` remembers the path
and the opening quote, in the second one it defers the match; `importStatementPattern` has matches
of the second kind only, and remembers the path and the import clause. And there are such matches
wherever there can be (`matchAt_fromClause_own`, `matchAt_fromClause_statement`,
`matchAt_importStatement`).
-/

namespace ImportSuffix

open Text
open Cursor (isWordSide)

/-- A clause that begins with its `from`. -/
structure Clause.IsTail (d : Clause) (gap stem : List Char) : Prop where
  wellFormed : d.WellFormed
  isGap : IsGap gap
  head : d.head = "from".toList ++ gap
  path : d.path = stem ++ ".js".toList

/-- The place behind a clause, by way of its parts. -/
theorem Clause.past_text (here : Cursor) (c : Clause) (r : List Char) :
    ((here.past c.head (c.opening :: (c.path ++ c.closing :: r))).past [c.opening]
      (c.path ++ c.closing :: r)).past (c.path ++ [c.closing]) r = here.past c.text r := by
  rw [Cursor.past_past, Cursor.past_past]
  rfl

/-- That at a place a clause with the suffix begins, with `before` in front of its `from` and `r`
behind it. -/
structure ClauseAt (here : Cursor) (c : Clause) (before stem r : List Char) : Prop where
  wellFormed : c.WellFormed
  rest : here.rest = c.text ++ r
  before : beforeFrom? c.head = some before
  path : c.path = stem ++ ".js".toList

namespace ClauseAt

variable {here : Cursor} {c c' d : Clause}
  {before before' stem stem' gap lead between u r r' : List Char}

theorem unique (h : ClauseAt here c before stem r) (h' : ClauseAt here c' before' stem' r') :
    c' = c ∧ before' = before ∧ stem' = stem ∧ r' = r := by
  obtain ⟨rfl, rfl⟩ :=
    Clause.text_append_inj h'.wellFormed h.wellFormed (h'.rest.symm.trans h.rest)
  refine ⟨rfl, ?_, ?_, rfl⟩
  · exact Option.some.inj (h'.before.symm.trans h.before)
  · exact List.append_cancel_right (h'.path.symm.trans h.path)

/-- A clause is what begins with its `from`, and the run in front of that. -/
theorem of_isTail (hd : d.IsTail gap stem) (hrest : here.rest = u ++ (d.text ++ r))
    (hu : Unquoted u) (hside : isWordSide u.getLast? = false) :
    ClauseAt here ⟨u ++ d.head, d.opening, d.path, d.closing⟩ u stem r where
  wellFormed :=
    ⟨unquoted_append.2 ⟨hu, hd.wellFormed.head⟩, hd.wellFormed.opening, hd.wellFormed.path,
      hd.wellFormed.closing⟩
  rest := by rw [hrest, Clause.text_append, Clause.text_append, List.append_assoc]
  before := beforeFrom?_eq_some.2 ⟨hside, gap, hd.isGap, by rw [hd.head, List.append_assoc]⟩
  path := hd.path

/-- With a statement in front of its `from` the run begins with what is in front of the
statement. -/
theorem of_statement (hd : d.IsTail gap stem) (hst : HoldsStatement before u between)
    (hrest : here.rest = u ++ ("import".toList ++ between ++ (d.text ++ r))) (hu : Unquoted u)
    (hbetween : Unquoted between) :
    ∃ c, ClauseAt here c before stem r ∧ c.text = u ++ ("import".toList ++ between ++ d.text) := by
  have hside := hst.isWordSide_getLast?
  obtain ⟨rfl, -, -, -⟩ := hst
  have hunquoted : Unquoted (u ++ "import".toList ++ between) := by
    exact unquoted_append.2 ⟨unquoted_append.2 ⟨hu, by decide⟩, hbetween⟩
  have hrest' : here.rest = u ++ "import".toList ++ between ++ (d.text ++ r) := by
    rw [hrest, List.append_assoc, List.append_assoc, List.append_assoc]
  refine ⟨_, of_isTail hd hrest' hunquoted hside, ?_⟩
  simp only [Clause.text, List.append_assoc]

theorem exists_isTail (h : ClauseAt here c before stem r) :
    isWordSide before.getLast? = false ∧ Unquoted before ∧ ∃ (d : Clause) (gap : List Char),
      d.IsTail gap stem ∧ d.opening = c.opening ∧ c.text = before ++ d.text ∧
      here.rest = before ++ (d.text ++ r) := by
  obtain ⟨hside, gap, hgap, hhead⟩ := beforeFrom?_eq_some.1 h.before
  have hunquoted := h.wellFormed.head
  rw [hhead, List.append_assoc, unquoted_append] at hunquoted
  have htext : c.text =
      before ++ (Clause.mk ("from".toList ++ gap) c.opening c.path c.closing).text := by
    rw [Clause.text, hhead, Clause.text, List.append_assoc, List.append_assoc, List.append_assoc]
  refine ⟨hside, hunquoted.1, ⟨"from".toList ++ gap, c.opening, c.path, c.closing⟩, gap,
    ⟨⟨hunquoted.2, h.wellFormed.opening, h.wellFormed.path, h.wellFormed.closing⟩, hgap, rfl,
      h.path⟩, rfl, htext, ?_⟩
  rw [h.rest, htext, List.append_assoc]

theorem unquoted_before (h : ClauseAt here c before stem r) : Unquoted before :=
  h.exists_isTail.2.1

theorem unquoted_lead (h : ClauseAt here c before stem r)
    (hst : HoldsStatement before lead between) :
    Unquoted lead := by
  have hbefore := h.unquoted_before
  rw [hst.eq, List.append_assoc, unquoted_append] at hbefore
  exact hbefore.1

end ClauseAt

namespace Rule

open Pattern

variable {n : Nat} {s x : MatchState} {d c : Clause} {gap stem before lead between u r : List Char}
  {here : Cursor} {st : MatchState}

theorem matchAt_of_isSteady {p : Pattern} (hp : p.isSteady = true) :
    p.matchAt here = p.run 0 ⟨here, []⟩ some := if_pos hp

/-! ### From the word `from` on -/

/-- A clause from its `from` on, with a pattern for the opening quote and the number of the group
for the path. -/
def clauseTail (opening : Pattern) (index : Nat) : Pattern :=
  sequence [
    literal "from", someBlanks,
    opening,
    group index (some "path") (star .lazy (one .unquoted)),
    suffixAndQuote]

/-- That a pattern matches a quote, and what it notes of that. -/
def ReadsQuote (opening : Pattern) (note : Cursor → Cursor → List Capture) : Prop :=
  ∀ (n : Nat) (s : MatchState) (k : MatchState → Option MatchState), opening.run n s k =
    (one .quote).run n s fun t => k ⟨t.place, note s.place t.place ++ t.captures⟩

variable {opening : Pattern} {index : Nat} {note : Cursor → Cursor → List Capture}

theorem of_run_clauseTail (hopening : ReadsQuote opening note)
    (h : (clauseTail opening index).run n s some = some x) :
    ∃ d gap stem r a, Clause.IsTail d gap stem ∧ s.place.rest = d.text ++ r ∧
      a.Holds "path" stem ∧
      x = ⟨s.place.past d.text r,
        a :: (note (s.place.past d.head (d.opening :: (d.path ++ d.closing :: r)))
          ((s.place.past d.head (d.opening :: (d.path ++ d.closing :: r))).past [d.opening]
            (d.path ++ d.closing :: r)) ++ s.captures)⟩ := by
  rw [clauseTail] at h
  obtain ⟨gap, r₁, m, hgap, hr₁, h⟩ := of_run_from h
  rw [run_sequence_cons, hopening] at h
  obtain ⟨q, r₂, hr₂, hq, h⟩ := of_run_one h
  obtain ⟨stem, q', r, a, hstem, hq', hr, ha, hx⟩ := of_run_path h
  obtain rfl : r₁ = q :: r₂ := hr₂
  obtain rfl : r₂ = stem ++ ".js".toList ++ q' :: r := hr
  rw [CharClass.contains_quote] at hq
  refine ⟨⟨"from".toList ++ gap, q, stem ++ ".js".toList, q'⟩, gap, stem, r, a,
    ⟨⟨?_, hq, ?_, hq'⟩, hgap, rfl, rfl⟩, ?_, ha, ?_⟩
  · exact unquoted_append.2 ⟨by decide, unquoted_of_blank hgap.2⟩
  · exact unquoted_append.2 ⟨hstem, by decide⟩
  · rw [hr₁, Clause.text_append]
  · exact hx.trans (congrArg (MatchState.mk · _)
      (Clause.past_text s.place ⟨"from".toList ++ gap, q, stem ++ ".js".toList, q'⟩ r))

theorem run_clauseTail_ne_none (hopening : ReadsQuote opening note) (hd : d.IsTail gap stem)
    (hr : s.place.rest = d.text ++ r) : (clauseTail opening index).run n s some ≠ none := by
  have hrest : s.place.rest = "from".toList ++ gap ++ d.opening :: (d.path ++ d.closing :: r) := by
    rw [hr, Clause.text_append, hd.head]
  have hquote : CharClass.quote.contains d.opening = true := by
    rw [CharClass.contains_quote, hd.wellFormed.opening]
  have hpath : d.path ++ d.closing :: r = stem ++ ".js".toList ++ d.closing :: r := by rw [hd.path]
  have hunquoted := hd.wellFormed.path
  rw [hd.path, unquoted_append] at hunquoted
  rw [clauseTail]
  refine run_from_ne_none hrest hd.isGap fun m => ?_
  rw [run_sequence_cons, hopening, run_one rfl hquote]
  exact run_path_ne_none hpath hunquoted.1 hd.wellFormed.closing

theorem goesByPlace_clauseTail (hopening : ReadsQuote opening note) :
    GoesByPlace fun t => (clauseTail opening index).run n t some := by
  intro t t' hplace h
  obtain ⟨x, hx⟩ := Option.ne_none_iff_exists'.1 h
  obtain ⟨d, gap, stem, r, -, hd, hr, -⟩ := of_run_clauseTail hopening hx
  rw [hplace] at hr
  exact run_clauseTail_ne_none hopening hd hr

/-- The opening quote as `fromClausePattern` remembers it. -/
theorem readsQuote_group : ReadsQuote (group 2 (some "quote") (one .quote))
    fun start stop => [⟨2, some "quote", start, stop⟩] := fun _ _ _ => rfl

theorem readsQuote_one : ReadsQuote (one .quote) fun _ _ => [] := fun _ _ _ => rfl

/-! ### Own clauses and deferred statements -/

/-- What `fromClausePattern` has after the optional statement. -/
def fromTail : Pattern :=
  seq boundary (clauseTail (group 2 (some "quote") (one .quote)) 3)

theorem of_run_fromTail (h : fromTail.run n s some = some x) :
    ∃ d gap stem r a b, Clause.IsTail d gap stem ∧ s.place.rest = d.text ++ r ∧
      isWordSide s.place.prev = false ∧ a.Holds "path" stem ∧ b.Holds "quote" [d.opening] ∧
      x = ⟨s.place.past d.text r, a :: b :: s.captures⟩ := by
  rw [fromTail, run_seq] at h
  obtain ⟨hside, htail⟩ := of_run_boundary h
  obtain ⟨d, gap, stem, r, a, hd, hr, ha, hx⟩ := of_run_clauseTail readsQuote_group htail
  let start := s.place.past d.head (d.opening :: (d.path ++ d.closing :: r))
  let stop := start.past [d.opening] (d.path ++ d.closing :: r)
  have hquote : start.upTo stop = [d.opening] := Cursor.upTo_past rfl
  refine ⟨d, gap, stem, r, a, ⟨2, some "quote", start, stop⟩, hd, hr, ?_, ha, ⟨rfl, hquote⟩, hx⟩
  rw [hside, hr, Clause.text_append, hd.head]
  rfl

theorem run_fromTail_ne_none (hd : d.IsTail gap stem) (hr : s.place.rest = d.text ++ r)
    (hside : isWordSide s.place.prev = false) : fromTail.run n s some ≠ none := by
  have hboundary : isWordSide s.place.prev = !isWordSide s.place.rest.head? := by
    rw [hside, hr, Clause.text_append, hd.head]
    rfl
  rw [fromTail, run_seq, run_boundary_of_eq hboundary]
  exact run_clauseTail_ne_none readsQuote_group hd hr

theorem goesByPlace_fromTail : GoesByPlace fun t => fromTail.run n t some := by
  intro t t' hplace h
  obtain ⟨x, hx⟩ := Option.ne_none_iff_exists'.1 h
  obtain ⟨d, gap, stem, r, -, -, hd, hr, hside, -⟩ := of_run_fromTail hx
  rw [hplace] at hr hside
  exact run_fromTail_ne_none hd hr hside

theorem run_fromClausePattern : ∃ m, fromClausePattern.run n s some =
    ((group 1 (some deferGroup) importHead).run (n + 1) s fun t => fromTail.run m t some).or
      (fromTail.run m s some) := by
  rw [fromClausePattern, run_sequence_cons, run_optional]
  exact ⟨_, rfl⟩

/-- A deferred match begins with a statement and ends as one of its own does. -/
theorem of_run_importHead {k : MatchState → Option MatchState} (hk : GoesByPlace k)
    (h : importHead.run n s k = some x) :
    ∃ between r, s.place.rest = "import".toList ++ between ++ r ∧
      isWordSide s.place.prev = false ∧ isWordSide between.head? = false ∧
      Unquoted between ∧ holdsClause between = true ∧
      k (s.past ("import".toList ++ between) r) = some x := by
  rw [importHead, run_sequence_cons] at h
  obtain ⟨r₁, hr₁, hbefore, hafter, hclause⟩ := of_run_importWord h
  have hnote : ∀ t v : MatchState, ((fun _ v => v) t v : MatchState).place = v.place :=
    fun _ _ => rfl
  obtain ⟨lead, between, gap, r, hr, hunquoted, hroom, hcut, hend⟩ := of_runClause hnote hk hclause
  obtain rfl : r₁ = between ++ r := hr
  rw [head?_append_of_holdsClause hroom] at hafter
  refine ⟨between, r, by rw [hr₁, List.append_assoc], hbefore, hafter, hunquoted, hroom, ?_⟩
  have hstate : ((s.past "import".toList (between ++ r)).past (lead ++ clauseIn between)
      (gap ++ r)).past gap r = s.past ("import".toList ++ between) r := by
    rw [MatchState.past_past, MatchState.past_past, ← hcut]
  exact hstate ▸ hend

theorem run_importHead_ne_none {k : MatchState → Option MatchState} (hk : GoesByPlace k)
    (hr : s.place.rest = "import".toList ++ between ++ r)
    (hbefore : isWordSide s.place.prev = false) (hafter : isWordSide between.head? = false)
    (hunquoted : Unquoted between)
    (hroom : holdsClause between = true)
    (hend : k (s.past ("import".toList ++ between) r) ≠ none) : importHead.run n s k ≠ none := by
  rw [List.append_assoc] at hr
  have hside : isWordSide (between ++ r).head? = false := by
    rwa [head?_append_of_holdsClause hroom]
  have hnote : ∀ t v : MatchState, ((fun _ v => v) t v : MatchState).place = v.place :=
    fun _ _ => rfl
  rw [importHead, run_sequence_cons, run_importWord hr hbefore hside]
  refine runClause_ne_none hnote hk rfl hunquoted hroom ?_
  rwa [MatchState.past_past]

/-- What `fromClausePattern` matches from a place in a run on: a clause of its own, with its `from`
at that place, or a statement, with its `import` there. -/
theorem of_matchAt_fromClause (hprev : isWordSide here.prev = false) (hrest : here.rest = u ++ r)
    (hu : Unquoted u) (h : fromClausePattern.matchAt (here.past u r) = some st) :
    ∃ c before stem r', ClauseAt here c before stem r' ∧ st.place = here.past c.text r' ∧
      ((u = before ∧ ∃ a b, a.Holds "path" stem ∧ b.Holds "quote" [c.opening] ∧
          st.captures = [a, b]) ∨
        ((∃ between, HoldsStatement before u between) ∧
          ∃ a ∈ st.captures, a.name = some deferGroup)) := by
  rw [matchAt_of_isSteady rfl] at h
  obtain ⟨m, hrun⟩ := run_fromClausePattern (n := 0) (s := ⟨here.past u r, []⟩)
  rw [hrun, Option.or_eq_some_iff] at h
  rcases h with hdefer | ⟨-, hown⟩
  -- With the optional part, the match begins at an `import` and is deferred.
  · rw [run_group] at hdefer
    have hk : GoesByPlace fun t : MatchState =>
        fromTail.run m (t.close 1 (some deferGroup) (here.past u r)) some :=
      goesByPlace_fromTail.comp fun t => t.place_close _ _ _
    obtain ⟨between, r₁, hr₁, hbefore, hafter, hunquoted, hroom, htail⟩ :=
      of_run_importHead hk hdefer
    obtain ⟨d, gap, stem, r', a, b, hd, hr', hside, -, -, rfl⟩ := of_run_fromTail htail
    obtain rfl : r = "import".toList ++ between ++ r₁ := hr₁
    obtain rfl : r₁ = d.text ++ r' := hr'
    have hbefore' : isWordSide u.getLast? = false := by rwa [← Cursor.isWordSide_past hprev]
    have hst : HoldsStatement (u ++ "import".toList ++ between) u between :=
      ⟨rfl, hbefore', hafter, hroom⟩
    obtain ⟨c, hc, htext⟩ := ClauseAt.of_statement hd hst hrest hu hunquoted
    refine ⟨c, _, stem, r', hc, ?_, .inr ⟨⟨between, hst⟩, ?_⟩⟩
    · show ((here.past u _).past _ _).past d.text r' = _
      rw [Cursor.past_past, Cursor.past_past, htext, List.append_assoc]
    · exact ⟨_, List.mem_cons_of_mem a (List.mem_cons_of_mem b List.mem_cons_self), rfl⟩
  -- Without it, the match begins at the `from`.
  · obtain ⟨d, gap, stem, r', a, b, hd, hr, hside, ha, hb, rfl⟩ := of_run_fromTail hown
    obtain rfl : r = d.text ++ r' := hr
    have hside' : isWordSide u.getLast? = false := by rwa [← Cursor.isWordSide_past hprev]
    refine ⟨_, u, stem, r', ClauseAt.of_isTail hd hrest hu hside', ?_,
      .inl ⟨rfl, a, b, ha, hb, rfl⟩⟩
    show (here.past u (d.text ++ r')).past d.text r' = _
    rw [Cursor.past_past, Clause.text, Clause.text, List.append_assoc]

theorem matchAt_fromClause_own (hprev : isWordSide here.prev = false)
    (h : ClauseAt here c before stem r) (hrest : here.rest = before ++ u) :
    fromClausePattern.matchAt (here.past before u) ≠ none := by
  obtain ⟨hside, -, d, gap, hd, -, -, hrest'⟩ := h.exists_isTail
  obtain rfl : u = d.text ++ r := List.append_cancel_left (hrest.symm.trans hrest')
  obtain ⟨m, hrun⟩ := run_fromClausePattern (n := 0) (s := ⟨here.past before (d.text ++ r), []⟩)
  rw [matchAt_of_isSteady rfl, hrun]
  intro hnone
  refine run_fromTail_ne_none hd rfl ?_ (Option.or_eq_none_iff.1 hnone).2
  show isWordSide (here.past before (d.text ++ r)).prev = false
  rwa [Cursor.isWordSide_past hprev]

theorem matchAt_fromClause_statement (hprev : isWordSide here.prev = false)
    (h : ClauseAt here c before stem r) (hst : HoldsStatement before lead between)
    (hrest : here.rest = lead ++ u) : fromClausePattern.matchAt (here.past lead u) ≠ none := by
  obtain ⟨hside, hunquoted, d, gap, hd, -, -, hrest'⟩ := h.exists_isTail
  obtain ⟨rfl, hbefore, hafter, hroom⟩ := hst
  obtain rfl : u = "import".toList ++ between ++ (d.text ++ r) := by
    rw [hrest, List.append_assoc, List.append_assoc] at hrest'
    rw [List.append_cancel_left hrest', List.append_assoc]
  rw [unquoted_append] at hunquoted
  let s : MatchState := ⟨here.past lead ("import".toList ++ between ++ (d.text ++ r)), []⟩
  obtain ⟨m, hrun⟩ := run_fromClausePattern (n := 0) (s := s)
  rw [matchAt_of_isSteady rfl, hrun]
  intro hnone
  have hk : GoesByPlace fun t : MatchState =>
      fromTail.run m (t.close 1 (some deferGroup) s.place) some :=
    goesByPlace_fromTail.comp fun t => t.place_close _ _ _
  have hbefore' : isWordSide s.place.prev = false := by rwa [Cursor.isWordSide_past hprev]
  refine run_importHead_ne_none hk rfl hbefore' hafter hunquoted.2 hroom ?_
    (Option.or_eq_none_iff.1 hnone).1
  refine run_fromTail_ne_none hd rfl ?_
  show isWordSide ((here.past lead _).past ("import".toList ++ between) (d.text ++ r)).prev = false
  rwa [Cursor.past_past, Cursor.isWordSide_past hprev, ← List.append_assoc]

/-! ### Statements -/

theorem run_importStatementPattern : ∃ l m i j, importStatementPattern.run n s some =
    importWord.run n s fun t =>
      runClause (fun t v => v.close 1 (some "clause") t.place) l m i t fun t =>
        (clauseTail (one .quote) 2).run j t some := by
  rw [importStatementPattern, run_sequence_cons]
  exact ⟨_, _, _, _, rfl⟩

/-- What `importStatementPattern` matches from a place in a run on: a statement with its `import` at
that place. -/
theorem of_matchAt_importStatement (hprev : isWordSide here.prev = false)
    (hrest : here.rest = u ++ r) (hu : Unquoted u)
    (h : importStatementPattern.matchAt (here.past u r) = some st) :
    ∃ c before stem between r', ClauseAt here c before stem r' ∧ st.place = here.past c.text r' ∧
      HoldsStatement before u between ∧ ∃ a b, a.Holds "path" stem ∧
        b.Holds "clause" (clauseIn between) ∧ st.captures = [a, b] := by
  obtain ⟨l, m, i, j, hrun⟩ :=
    run_importStatementPattern (n := 0) (s := ⟨here.past u r, []⟩)
  rw [matchAt_of_isSteady rfl, hrun] at h
  obtain ⟨r₁, hr₁, hbefore, hafter, hclause⟩ := of_run_importWord h
  have hnote : ∀ t v : MatchState, (v.close 1 (some "clause") t.place).place = v.place :=
    fun t v => v.place_close _ _ _
  obtain ⟨lead, between, gap₁, r₂, hr₂, hunquoted, hroom, hcut, htail⟩ :=
    of_runClause hnote (goesByPlace_clauseTail readsQuote_one) hclause
  obtain ⟨d, gap, stem, r', a, hd, hr', ha, rfl⟩ := of_run_clauseTail readsQuote_one htail
  obtain rfl : r₁ = between ++ r₂ := hr₂
  obtain rfl : r₂ = d.text ++ r' := hr'
  obtain rfl : r = "import".toList ++ (between ++ (d.text ++ r')) := hr₁
  rw [← List.append_assoc "import".toList] at hrest
  rw [head?_append_of_holdsClause hroom] at hafter
  have hbefore' : isWordSide u.getLast? = false := by rwa [← Cursor.isWordSide_past hprev]
  have hst : HoldsStatement (u ++ "import".toList ++ between) u between :=
    ⟨rfl, hbefore', hafter, hroom⟩
  obtain ⟨c, hc, htext⟩ := ClauseAt.of_statement hd hst hrest hu hunquoted
  refine ⟨c, _, stem, between, r', hc, ?_, hst, a, _, ha, ⟨rfl, ?_⟩, rfl⟩
  · have hpast : lead ++ clauseIn between ++ (gap₁ ++ d.text) = between ++ d.text := by
      rw [← List.append_assoc, ← hcut]
    show ((((here.past u _).past "import".toList _).past (lead ++ clauseIn between) _).past gap₁
      _).past d.text r' = _
    rw [Cursor.past_past, Cursor.past_past, Cursor.past_past, Cursor.past_past, hpast, htext,
      List.append_assoc]
  · let start := (here.past u ("import".toList ++ (between ++ (d.text ++ r')))).past
      "import".toList (between ++ (d.text ++ r'))
    show (start.past lead (clauseIn between ++ (gap₁ ++ (d.text ++ r')))).upTo
      (start.past (lead ++ clauseIn between) (gap₁ ++ (d.text ++ r'))) = clauseIn between
    rw [← Cursor.past_past start lead _ (clauseIn between ++ (gap₁ ++ (d.text ++ r')))]
    exact Cursor.upTo_past rfl

theorem matchAt_importStatement (hprev : isWordSide here.prev = false)
    (h : ClauseAt here c before stem r) (hst : HoldsStatement before lead between)
    (hrest : here.rest = lead ++ u) : importStatementPattern.matchAt (here.past lead u) ≠ none := by
  obtain ⟨-, hunquoted, d, gap, hd, -, -, hrest'⟩ := h.exists_isTail
  obtain ⟨rfl, hbefore, hafter, hroom⟩ := hst
  obtain rfl : u = "import".toList ++ (between ++ (d.text ++ r)) := by
    rw [hrest, List.append_assoc, List.append_assoc] at hrest'
    exact List.append_cancel_left hrest'
  rw [unquoted_append] at hunquoted
  let s : MatchState := ⟨here.past lead ("import".toList ++ (between ++ (d.text ++ r))), []⟩
  obtain ⟨l, m, i, j, hrun⟩ := run_importStatementPattern (n := 0) (s := s)
  have hbefore' : isWordSide s.place.prev = false := by rwa [Cursor.isWordSide_past hprev]
  have hside : isWordSide (between ++ (d.text ++ r)).head? = false := by
    rwa [head?_append_of_holdsClause hroom]
  have hnote : ∀ t v : MatchState, (v.close 1 (some "clause") t.place).place = v.place :=
    fun t v => v.place_close _ _ _
  rw [matchAt_of_isSteady rfl, hrun, run_importWord rfl hbefore' hside]
  exact runClause_ne_none hnote (goesByPlace_clauseTail readsQuote_one) rfl hunquoted.2 hroom
    (run_clauseTail_ne_none readsQuote_one hd rfl)

end Rule

end ImportSuffix
