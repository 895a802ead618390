import ImportSuffix.Proofs.Repetition
import ImportSuffix.Proofs.Revision
import ImportSuffix.Rule.Basic

/-!
# From matches to a revision

A rule is applied to all matches that a search through the text takes. What comes of it is the
revision of the text if the matches are where the revision has its clauses (`Rule.Treats`): where a
match begins in a run, a clause begins with that run and the revision is for it; and in such a
clause the leftmost match goes to its end, and what the rule makes of the clause is what the
revision says. The search then goes from clause to clause as the revision does (`Rule.Sweeps`), so
the rule makes the revised text (`Rule.Treats.applyChars`), and its matches can be told from the
clauses (`Rule.Sweeps.of_found`, `Rule.Sweeps.exists_found`).
-/

namespace ImportSuffix

open Text
open Cursor (isWordSide)

/-! ### Steps of a search -/

section

variable {take : Cursor → Bool → Option Match} {left u r : List Char} {here : Cursor} {b : Bool}
  {m : Match}

/-- A search passes the characters where there is nothing to take. -/
theorem segmentsFrom_past (hrest : here.rest = u ++ r) (hleft : u.length ≤ left.length)
    (hnone : ∀ v w b, u = v ++ w → w ≠ [] → take (here.past v (w ++ r)) b = none) :
    ∃ b', segmentsFrom take left here b =
      u.map .plain ++ segmentsFrom take (left.drop u.length) (here.past u r) b' := by
  induction u generalizing here left b with
  | nil =>
    rw [List.nil_append] at hrest
    exact ⟨b, by rw [Cursor.past_nil hrest]; rfl⟩
  | cons c u ih =>
    cases left with
    | nil => exact absurd hleft (Nat.not_succ_le_zero _)
    | cons d left =>
      have hhere : take here b = none := by
        have hfirst := hnone [] (c :: u) b rfl (List.cons_ne_nil c u)
        rwa [Cursor.past_nil (show here.rest = c :: u ++ r from hrest)] at hfirst
      have hlater : ∀ v w b, u = v ++ w → w ≠ [] →
          take ((here.past [c] (u ++ r)).past v (w ++ r)) b = none := fun v w b huv hw => by
        rw [Cursor.past_past]
        exact hnone (c :: v) w b (congrArg (c :: ·) huv) hw
      obtain ⟨b', htail⟩ := @ih left (here.past [c] (u ++ r)) false rfl
        (Nat.le_of_succ_le_succ hleft) hlater
      refine ⟨b', ?_⟩
      rw [Cursor.past_past] at htail
      simp only [segmentsFrom, hhere, hrest, List.cons_append, Cursor.next_eq_past, htail,
        List.map_cons, List.length_cons, List.drop_succ_cons, List.nil_append]

/-- A search takes a match that is not empty and goes on behind it. -/
theorem segmentsFrom_found (hrest : here.rest ≠ []) (hleft : here.rest.length ≤ left.length)
    (htake : take here b = some m) (hm : m.isEmpty = false) :
    segmentsFrom take left here b = .found m :: segmentsFrom take left.tail m.stop true := by
  obtain ⟨c, rest, hc⟩ := List.exists_cons_of_ne_nil hrest
  cases left with
  | nil =>
    rw [hc] at hleft
    exact absurd hleft (Nat.not_succ_le_zero _)
  | cons d left =>
    simp only [segmentsFrom, htake, hc, hm]
    rfl

/-- At the end of the text a search is over, if there is nothing to take. -/
theorem segmentsFrom_end (hrest : here.rest = []) (htake : take here b = none) :
    segmentsFrom take left here b = [] := by
  cases left with
  | nil => rw [segmentsFrom, htake]; rfl
  | cons d left => simp only [segmentsFrom, htake, hrest]

end

/-! ### The match in a clause -/

/-- That in a clause, behind which `r` follows, the leftmost match of a pattern stands behind `lead`
and goes to the end of the clause. -/
structure Pattern.Hits (p : Pattern) (here : Cursor) (c : Clause) (r lead : List Char)
    (m : Match) : Prop where
  text : c.text = lead ++ m.text
  ne_nil : m.text ≠ []
  start : m.start = here.past lead (m.text ++ r)
  stop : m.stop = here.past c.text r
  before : ∀ v w, lead = v ++ w → w ≠ [] →
    p.matchAt (here.past v (w ++ (m.text ++ r))) = none
  found : p.matchAt m.start = some ⟨m.stop, m.captures⟩

namespace Pattern.Hits

variable {p : Pattern} {here : Cursor} {c : Clause} {r lead lead' body : List Char} {m m' : Match}
  {captures : List Capture}

theorem of_matchAt (htext : c.text = lead ++ body) (hbody : body ≠ [])
    (hnone : ∀ v w, lead = v ++ w → w ≠ [] → p.matchAt (here.past v (w ++ (body ++ r))) = none)
    (hmatch : p.matchAt (here.past lead (body ++ r)) = some ⟨here.past c.text r, captures⟩) :
    p.Hits here c r lead ⟨here.past lead (body ++ r), here.past c.text r, captures⟩ := by
  have hbodyText :
      Match.text ⟨here.past lead (body ++ r), here.past c.text r, captures⟩ = body := by
    rw [Match.text, htext, ← Cursor.past_past here lead body (body ++ r)]
    exact Cursor.upTo_past rfl
  exact ⟨by rw [hbodyText, htext], by rwa [hbodyText], by rw [hbodyText], rfl,
    by rwa [hbodyText], hmatch⟩

/-- In front of the leftmost match there is no other one. -/
theorem eq_nil_of_lead {u : List Char} (h : p.Hits here c r lead m) (h' : p.Hits here c r lead' m')
    (hlead : lead' = lead ++ u) (htext : m.text = u ++ m'.text) : u = [] := by
  cases u with
  | nil => rfl
  | cons d u =>
    have hnone := h'.before lead (d :: u) hlead (List.cons_ne_nil d u)
    rw [← List.append_assoc, ← htext, ← h.start, h.found] at hnone
    cases hnone

/-- A clause has one leftmost match. -/
theorem unique (h : p.Hits here c r lead m) (h' : p.Hits here c r lead' m') :
    lead' = lead ∧ m' = m := by
  have hlead : lead' = lead := by
    obtain ⟨u, hu, htext⟩ | ⟨u, hu, htext⟩ :=
      List.append_eq_append_iff.1 (h.text.symm.trans h'.text)
    · rw [hu, h.eq_nil_of_lead h' hu htext, List.append_nil]
    · rw [hu, h'.eq_nil_of_lead h hu htext, List.append_nil]
  subst hlead
  have htext : m'.text = m.text := List.append_cancel_left (h'.text.symm.trans h.text)
  have hstart : m'.start = m.start := by rw [h'.start, h.start, htext]
  have hstop : m'.stop = m.stop := by rw [h'.stop, h.stop]
  have hfound := h'.found
  rw [hstart, h.found] at hfound
  refine ⟨rfl, ?_⟩
  cases m
  cases m'
  cases hstart
  cases hstop
  cases hfound
  rfl

end Pattern.Hits

/-- That a place is the beginning of the run of that number. -/
structure Quoted.StandsAt (T : Quoted) (k : Nat) (here : Cursor) : Prop where
  prev : isWordSide here.prev = false
  rest : here.rest = T.textFrom k

namespace Rule

/-- That a rule has its matches where a revision has its clauses, and makes of them what the
revision says. A run begins at the start of the text or behind a quote, so not within a word. -/
structure Treats (rule : Rule) (f : Revision) : Prop where
  /-- A match that begins in a run, in front of the next quote, is a match in a clause. -/
  sound : ∀ {here : Cursor} {u r : List Char} {st : MatchState}, isWordSide here.prev = false →
    here.rest = u ++ r → Unquoted u → rule.pattern.matchAt (here.past u r) = some st →
    ∃ c c' r', c.WellFormed ∧ here.rest = c.text ++ r' ∧ f.revise? c = some c'
  /-- In a clause there is a match, and what is made of it is the new clause. -/
  hit : ∀ {here : Cursor} {c c' : Clause} {r : List Char}, isWordSide here.prev = false →
    c.WellFormed → here.rest = c.text ++ r → f.revise? c = some c' →
    ∃ lead m, rule.pattern.Hits here c r lead m ∧ lead ++ rule.replacement m = c'.text

variable {rule : Rule} {f : Revision} {T : Quoted} {k : Nat} {here : Cursor} {left u r : List Char}
  {b : Bool}

theorem takeAt_eq_none {p : Pattern} (h : p.matchAt here = none) : p.takeAt here b = none := by
  rw [Pattern.takeAt, h]
  rfl

theorem flatMap_plain (u : List Char) :
    (u.map Segment.plain).flatMap rule.replaceSegment = u := by
  rw [List.flatMap_map]
  exact List.flatMap_singleton' u

theorem flatMap_source_plain (u : List Char) :
    (u.map Segment.plain).flatMap Segment.source = u := by
  rw [List.flatMap_map]
  exact List.flatMap_singleton' u

/-- That segments go through a text from the run of that number on, from one revised clause to the
next: in front of the match in a clause, and wherever there is none, they are characters. -/
inductive Sweeps (rule : Rule) (f : Revision) (T : Quoted) : Nat → List Segment → Prop
  /-- The last run. -/
  | last : Sweeps rule f T T.size ((T.run T.size).map .plain)
  /-- A run that is not the head of a revised clause, and the quote behind it. -/
  | pass {k : Nat} {segments : List Segment} : k < T.size → T.revisedAt f k = none →
    Sweeps rule f T (k + 1) segments →
    Sweeps rule f T k ((T.run k ++ [T.quote k]).map .plain ++ segments)
  /-- A revised clause. -/
  | clause {k : Nat} {c : Clause} {here : Cursor} {lead : List Char} {m : Match}
    {segments : List Segment} : T.revisedAt f k = some c → T.StandsAt k here →
    rule.pattern.Hits here (T.clauseAt k) (T.textFrom (k + 2)) lead m →
    lead ++ rule.replacement m = c.text → Sweeps rule f T (k + 2) segments →
    Sweeps rule f T k (lead.map .plain ++ .found m :: segments)

/-- That a match is the one in the clause that begins with the run of that number, with `after` for
what follows on the clause. -/
def TakesAt (rule : Rule) (f : Revision) (T : Quoted) (k : Nat) (m : Match)
    (after : List Segment) : Prop :=
  ∃ here lead, T.StandsAt k here ∧
    rule.pattern.Hits here (T.clauseAt k) (T.textFrom (k + 2)) lead m ∧
    rule.Sweeps f T (k + 2) after

namespace Treats

/-- No match begins in a run that is not the head of a revised clause. -/
theorem matchAt_eq_none (h : rule.Treats f) (hk : k ≤ T.size) (hat : T.revisedAt f k = none)
    (hh : T.StandsAt k here) (hu : here.rest = u ++ r) (hunquoted : Unquoted u) :
    rule.pattern.matchAt (here.past u r) = none := by
  cases hmatch : rule.pattern.matchAt (here.past u r) with
  | none => rfl
  | some st =>
    obtain ⟨c, c', r', hc, htext, hrev⟩ := h.sound hh.prev hu hunquoted hmatch
    obtain ⟨hlt, rfl⟩ := Quoted.eq_clauseAt hk hc (hh.rest.symm.trans htext)
    rw [Quoted.revisedAt, if_pos hlt, hrev] at hat
    cases hat

theorem sweeps_last (h : rule.Treats f) (hh : T.StandsAt T.size here)
    (hleft : here.rest.length ≤ left.length) :
    rule.Sweeps f T T.size (segmentsFrom rule.pattern.takeAt left here b) := by
  have hrun : here.rest = T.run T.size ++ [] := by
    rw [hh.rest, Quoted.textFrom_size, List.append_nil]
  have hnone : ∀ v w, T.run T.size = v ++ w →
      rule.pattern.matchAt (here.past v (w ++ [])) = none := fun v w hvw => by
    have hv : Unquoted (v ++ w) := hvw ▸ T.unquoted_run T.size
    refine h.matchAt_eq_none (Nat.le_refl _) (Quoted.revisedAt_eq_none_of_size_le (Nat.le_succ _))
      hh ?_ (unquoted_append.1 hv).1
    rw [hrun, hvw, List.append_assoc]
  have hlen : (T.run T.size).length ≤ left.length := by
    rwa [hrun, List.append_nil] at hleft
  obtain ⟨b', hseg⟩ := segmentsFrom_past (b := b) hrun hlen
    fun v w b hvw _ => takeAt_eq_none (hnone v w hvw)
  have hend : rule.pattern.takeAt (here.past (T.run T.size) []) b' = none :=
    takeAt_eq_none (hnone (T.run T.size) [] (List.append_nil _).symm)
  rw [hseg, segmentsFrom_end rfl hend, List.append_nil]
  exact .last

theorem sweeps_pass (h : rule.Treats f) (hk : k < T.size) (hat : T.revisedAt f k = none)
    (ih : ∀ {here left b}, T.StandsAt (k + 1) here → here.rest.length ≤ left.length →
      rule.Sweeps f T (k + 1) (segmentsFrom rule.pattern.takeAt left here b))
    (hh : T.StandsAt k here) (hleft : here.rest.length ≤ left.length) :
    rule.Sweeps f T k (segmentsFrom rule.pattern.takeAt left here b) := by
  have hrun : here.rest = (T.run k ++ [T.quote k]) ++ T.textFrom (k + 1) := by
    rw [hh.rest, Quoted.textFrom_of_lt hk, List.append_assoc]
    rfl
  have hlen : (T.run k ++ [T.quote k]).length ≤ left.length := by
    rw [hrun, List.length_append] at hleft
    exact Nat.le_of_add_right_le hleft
  have hnone : ∀ v w b, T.run k ++ [T.quote k] = v ++ w → w ≠ [] →
      rule.pattern.takeAt (here.past v (w ++ T.textFrom (k + 1))) b = none := by
    intro v w b hvw hw
    refine takeAt_eq_none (h.matchAt_eq_none (Nat.le_of_lt hk) hat hh ?_
      ((T.unquoted_run k).of_append_eq hvw hw))
    rw [hrun, hvw, List.append_assoc]
  obtain ⟨b', hseg⟩ := segmentsFrom_past (b := b) hrun hlen hnone
  have hprev' :=
    Cursor.isWordSide_past_quote (T.isQuote_quote k) here (T.run k) (T.textFrom (k + 1))
  have hleft' :
      (T.textFrom (k + 1)).length ≤ (left.drop (T.run k ++ [T.quote k]).length).length := by
    rw [hrun, List.length_append] at hleft
    rw [List.length_drop]
    omega
  rw [hseg]
  exact .pass hk hat (ih ⟨hprev', rfl⟩ hleft')

theorem sweeps_clause (h : rule.Treats f) {c : Clause} (hat : T.revisedAt f k = some c)
    (ih : ∀ {here left b}, T.StandsAt (k + 2) here → here.rest.length ≤ left.length →
      rule.Sweeps f T (k + 2) (segmentsFrom rule.pattern.takeAt left here b))
    (hh : T.StandsAt k here) (hleft : here.rest.length ≤ left.length) :
    rule.Sweeps f T k (segmentsFrom rule.pattern.takeAt left here b) := by
  -- The search passes what is in front of the match, takes it, and goes on behind the clause.
  have hlt := Quoted.lt_size_of_revisedAt hat
  have hclause : here.rest = (T.clauseAt k).text ++ T.textFrom (k + 2) := by
    rw [hh.rest, Quoted.textFrom_eq_clauseAt hlt]
  obtain ⟨lead, m, hhits, hmake⟩ :=
    h.hit hh.prev (T.wellFormed_clauseAt k) hclause (Quoted.revise?_of_revisedAt hat)
  have hrun : here.rest = lead ++ (m.text ++ T.textFrom (k + 2)) := by
    rw [hclause, hhits.text, List.append_assoc]
  have hlen : here.rest.length = lead.length + (m.text.length + (T.textFrom (k + 2)).length) := by
    rw [hrun, List.length_append, List.length_append]
  have hpos : 0 < m.text.length := List.length_pos_iff.2 hhits.ne_nil
  have hlenLead : lead.length ≤ left.length := by omega
  obtain ⟨b', hseg⟩ := segmentsFrom_past (b := b) hrun hlenLead
    fun v w b hvw hw => takeAt_eq_none (hhits.before v w hvw hw)
  have hpos' : m.stop.pos = m.start.pos + m.text.length := by
    rw [hhits.stop, hhits.start, Cursor.past, Cursor.past, hhits.text, List.length_append,
      Nat.add_assoc]
  have hne : m.stop.pos ≠ m.start.pos := by omega
  have htake : rule.pattern.takeAt m.start b' = some m := by
    rw [Pattern.takeAt, hhits.found, Pattern.take]
    exact if_neg fun hsame => hne (of_decide_eq_true (Bool.and_eq_true_iff.1 hsame).1)
  have hrest : m.start.rest = m.text ++ T.textFrom (k + 2) := by rw [hhits.start, Cursor.rest_past]
  have hrestNe : m.start.rest ≠ [] := by simp [hrest, hhits.ne_nil]
  have hrestLen : m.start.rest.length ≤ (left.drop lead.length).length := by
    rw [List.length_drop, hrest, List.length_append]
    omega
  have hnotEmpty : m.isEmpty = false := by
    rw [Match.isEmpty, beq_eq_false_iff_ne]
    exact hne.symm
  have hfound := segmentsFrom_found hrestNe hrestLen htake hnotEmpty
  have hstop : T.StandsAt (k + 2) m.stop := by
    rw [hhits.stop]
    refine ⟨?_, rfl⟩
    simp only [Cursor.past, Clause.getLast?_text, Option.some_or]
    exact isWord_of_isQuote (T.isQuote_quote (k + 1))
  have hleft' : m.stop.rest.length ≤ (left.drop lead.length).tail.length := by
    rw [List.length_tail, List.length_drop, hstop.rest]
    omega
  rw [hseg, ← hhits.start, hfound]
  exact .clause hat hh hhits hmake (ih hstop hleft')

/-- A search for the matches of a rule goes from one revised clause to the next. -/
theorem sweeps_segments (h : rule.Treats f) (T : Quoted) :
    rule.Sweeps f T 0 (rule.pattern.segments T.text) := by
  have hsweeps : ∀ k ≤ T.size, ∀ {here left b}, T.StandsAt k here →
      here.rest.length ≤ left.length →
      rule.Sweeps f T k (segmentsFrom rule.pattern.takeAt left here b) := by
    refine T.walk f ?last ?pass ?clause
    case last => exact h.sweeps_last
    case pass => exact fun k hk hat ih => h.sweeps_pass hk hat ih
    case clause => exact fun k c hat ih => h.sweeps_clause hat ih
  rw [Pattern.segments_eq]
  exact hsweeps 0 (Nat.zero_le _) ⟨rfl, T.textFrom_zero.symm⟩ (Nat.le_refl _)

end Treats

namespace Sweeps

variable {segments before after : List Segment} {m : Match} {j : Nat} {c : Clause}

/-- Together with what a rule makes of its matches, the segments are the revised text. -/
theorem flatMap_replaceSegment (h : rule.Sweeps f T k segments)
    (hbefore : T.revisedBefore f k = none) :
    segments.flatMap rule.replaceSegment = (T.revise f).textFrom k := by
  induction h with
  | last => rw [flatMap_plain, Quoted.textFrom_revise_size hbefore]
  | pass hk hat _ ih =>
    rw [List.flatMap_append, flatMap_plain, ih hat, Quoted.textFrom_revise_over hk hbefore hat,
      List.append_assoc]
    rfl
  | clause hat _ _ hmake _ ih =>
    rw [List.flatMap_append, flatMap_plain, List.flatMap_cons, ih (Quoted.revisedAt_succ hat),
      Quoted.textFrom_revise_clause hat, ← List.append_assoc]
    exact congrArg (· ++ _) hmake

/-- The segments cover the text. -/
theorem flatMap_source (h : rule.Sweeps f T k segments) :
    segments.flatMap Segment.source = T.textFrom k := by
  induction h with
  | last => rw [flatMap_source_plain, Quoted.textFrom_size]
  | pass hk _ _ ih =>
    rw [List.flatMap_append, flatMap_source_plain, ih, Quoted.textFrom_of_lt hk, List.append_assoc]
    rfl
  | clause hat _ hhits _ _ ih =>
    rw [List.flatMap_append, flatMap_source_plain, List.flatMap_cons, ih,
      Quoted.textFrom_eq_clauseAt (Quoted.lt_size_of_revisedAt hat), hhits.text, List.append_assoc]
    rfl

theorem exists_append_of_map_plain
    (h : u.map .plain ++ segments = before ++ .found m :: after) :
    ∃ before', segments = before' ++ .found m :: after := by
  induction u generalizing before with
  | nil => exact ⟨before, h⟩
  | cons c u ih =>
    cases before with
    | nil => cases h
    | cons s before => exact ih (List.cons.inj h).2

/-- A match that is found is the match in a revised clause. -/
theorem of_found (h : rule.Sweeps f T k (before ++ .found m :: after)) :
    ∃ j c, T.revisedAt f j = some c ∧ rule.TakesAt f T j m after := by
  generalize hsegments : before ++ .found m :: after = segments at h
  induction h generalizing before with
  | last =>
    obtain ⟨before', hnil⟩ := exists_append_of_map_plain
      ((List.append_nil _).trans hsegments.symm)
    exact absurd hnil (by simp)
  | pass _ _ _ ih =>
    obtain ⟨before', hrest⟩ := exists_append_of_map_plain hsegments.symm
    exact ih hrest.symm
  | @clause k c here lead m' segments hat hh hhits _ hsweeps ih =>
    obtain ⟨before', hrest⟩ := exists_append_of_map_plain hsegments.symm
    cases before' with
    | nil =>
      cases hrest
      exact ⟨k, c, hat, here, lead, hh, hhits, hsweeps⟩
    | cons s before' => exact ih (List.cons.inj hrest).2.symm

/-- In every revised clause a match is found. -/
theorem exists_found (h : rule.Sweeps f T k segments) (hkj : k ≤ j)
    (hj : T.revisedAt f j = some c) :
    ∃ before m after, segments = before ++ .found m :: after ∧ rule.TakesAt f T j m after := by
  induction h with
  | last =>
    have hlt := Quoted.lt_size_of_revisedAt hj
    omega
  | @pass k segments _ hat _ ih =>
    have hne : k ≠ j := by
      intro heq
      rw [← heq, hat] at hj
      cases hj
    obtain ⟨before, m, after, rfl, htakes⟩ := ih (by omega)
    exact ⟨_, m, after, (List.append_assoc _ _ _).symm, htakes⟩
  | @clause k c' here lead m segments hat hh hhits _ hsweeps ih =>
    rcases Nat.eq_or_lt_of_le hkj with rfl | hlt
    · exact ⟨_, m, segments, rfl, here, lead, hh, hhits, hsweeps⟩
    · have hne : k + 1 ≠ j := by
        intro heq
        rw [← heq, Quoted.revisedAt_succ hat] at hj
        cases hj
      obtain ⟨before, m', after, rfl, htakes⟩ := ih (by omega)
      exact ⟨lead.map .plain ++ .found m :: before, m', after,
        by rw [List.append_assoc, List.cons_append], htakes⟩

end Sweeps

theorem Treats.applyChars (h : rule.Treats f) (text : List Char) :
    rule.applyChars text = ((Quoted.ofText text).revise f).text := by
  have hsweeps := h.sweeps_segments (Quoted.ofText text)
  rw [Quoted.text_ofText] at hsweeps
  exact hsweeps.flatMap_replaceSegment rfl

end Rule

end ImportSuffix
