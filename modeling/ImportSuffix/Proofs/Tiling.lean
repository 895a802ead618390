import ImportSuffix.Rule.Basic
import Mathlib.Data.List.Basic

/-!
# How a search tiles a text

Whatever the pattern, the segments that a search makes of a text cover it one behind the other: each
begins where the one before it ends, and the last one ends with the text (`Pattern.tiles_segments`).
What a match covers is what the pattern prefers at the place where the match begins.

So what a rule makes of a text can be told from its matches. Between them the text stays as it is,
and in a match that is deferred as well; in the place of every other match stands what the template
makes of it (`Pattern.Tiles.flatMap_replaceSegment`).
-/

namespace ImportSuffix

namespace Cursor

variable {here there : Cursor} {text : List Char}

theorem IsPlaceOf.rest_eq (h : here.IsPlaceOf text) : here.rest = text.drop here.pos :=
  congrArg Cursor.rest h.2

theorem IsPlaceOf.length_rest (h : here.IsPlaceOf text) :
    here.pos + here.rest.length = text.length := by
  rw [h.rest_eq, List.length_drop]
  exact Nat.add_sub_cancel' h.1

/-- Which place of a text it is can be told from its distance from the start. -/
theorem IsPlaceOf.eq_of_pos (h : here.IsPlaceOf text) (h' : there.IsPlaceOf text)
    (hpos : here.pos = there.pos) : here = there := by
  rw [h.2, h'.2, hpos]

theorem IsPlaceOf.upTo_eq (h : here.IsPlaceOf text) (there : Cursor) :
    here.upTo there = text.extract here.pos there.pos := by
  rw [upTo, h.rest_eq]

end Cursor

/-- The match that a segment is, if it is one. -/
def Segment.match? : Segment → Option Match
  | .plain _ => none
  | .found m => some m

theorem mem_filterMap_match? {segments : List Segment} {m : Match} :
    m ∈ segments.filterMap Segment.match? ↔ .found m ∈ segments := by
  rw [List.mem_filterMap]
  constructor
  · intro h
    obtain ⟨s, hs, hm⟩ := h
    cases s with
    | plain c => cases hm
    | found m => exact Option.some.inj hm ▸ hs
  · intro h
    exact ⟨.found m, h, rfl⟩

theorem Pattern.mem_findAll {p : Pattern} {text : List Char} {m : Match} :
    m ∈ p.findAll text ↔ ∃ before after, p.segments text = before ++ .found m :: after :=
  mem_filterMap_match?.trans List.mem_iff_append

/-- Where a match begins and where it ends, by the distance from the start of the text. -/
def Match.span (m : Match) : Nat × Nat := (m.start.pos, m.stop.pos)

/-- The text from the `n`-th character on with something else in the place of some matches, which
are given from left to right. -/
def splice (text : List Char) (make : Match → List Char) : Nat → List Match → List Char
  | n, [] => text.drop n
  | n, m :: rest => text.extract n m.start.pos ++ (make m ++ splice text make m.stop.pos rest)

section

variable {text : List Char} {make : Match → List Char} {matches' : List Match} {i j n : Nat}

theorem extract_append_extract (hij : i ≤ j) (hjn : j ≤ n) :
    text.extract i j ++ text.extract j n = text.extract i n := by
  have hlen : n - i = (j - i) + (n - j) := by omega
  have hdrop : text.drop j = (text.drop i).drop (j - i) := by
    rw [List.drop_drop, Nat.add_sub_cancel' hij]
  rw [List.extract, List.extract, List.extract, hlen, List.take_add, hdrop]

theorem extract_append_drop (hij : i ≤ j) : text.extract i j ++ text.drop j = text.drop i := by
  have hdrop : text.drop j = (text.drop i).drop (j - i) := by
    rw [List.drop_drop, Nat.add_sub_cancel' hij]
  rw [List.extract, hdrop, List.take_append_drop]

/-- What stands in front of the first match is kept. -/
theorem extract_append_splice (hij : i ≤ j) (h : ∀ m ∈ matches', j ≤ m.start.pos) :
    text.extract i j ++ splice text make j matches' = splice text make i matches' := by
  cases matches' with
  | nil => exact extract_append_drop hij
  | cons m rest =>
    rw [splice, splice, ← List.append_assoc,
      extract_append_extract hij (h m List.mem_cons_self)]

end

namespace Pattern

/-- That segments cover a text from the `n`-th character on, one behind the other, and that what a
match covers is what the pattern prefers at its beginning. -/
inductive Tiles (p : Pattern) (text : List Char) : Nat → List Segment → Prop
  /-- Nothing is left to cover. -/
  | done : Tiles p text text.length []
  /-- A character outside all matches. -/
  | plain {n : Nat} {c : Char} {segments : List Segment} : text[n]? = some c →
    Tiles p text (n + 1) segments → Tiles p text n (.plain c :: segments)
  /-- A match. -/
  | found {m : Match} {segments : List Segment} : m.start.IsPlaceOf text →
    p.matchAt m.start = some ⟨m.stop, m.captures⟩ → Tiles p text m.stop.pos segments →
    Tiles p text m.start.pos (.found m :: segments)

section

variable {p : Pattern} {text : List Char} {here : Cursor} {afterMatch : Bool} {m : Match}
  {n : Nat} {segments before : List Segment}

/-! ### Every search tiles its text -/

theorem matchAt_of_takeAt (h : p.takeAt here afterMatch = some m) :
    m.start = here ∧ p.matchAt here = some ⟨m.stop, m.captures⟩ := by
  unfold takeAt take at h
  split at h
  · next s hs =>
    split at h
    · cases h
    · cases h
      exact ⟨rfl, hs⟩
  · cases h

theorem Tiles.of_rest_nil (hh : here.IsPlaceOf text) (hrest : here.rest = []) :
    p.Tiles text here.pos [] := by
  have hlen := hh.length_rest
  rw [hrest] at hlen
  rw [show here.pos = text.length from hlen]
  exact .done

theorem Tiles.of_rest_cons {c : Char} {rest : List Char} (hh : here.IsPlaceOf text)
    (hrest : here.rest = c :: rest) (h : p.Tiles text (here.next c rest).pos segments) :
    p.Tiles text here.pos (.plain c :: segments) := by
  refine .plain ?_ h
  rw [← List.head?_drop, ← hh.rest_eq, hrest]
  rfl

theorem Tiles.of_takeAt (hh : here.IsPlaceOf text) (htake : p.takeAt here afterMatch = some m)
    (h : p.Tiles text m.stop.pos segments) : p.Tiles text here.pos (.found m :: segments) := by
  obtain ⟨rfl, hmatch⟩ := matchAt_of_takeAt htake
  exact .found hh hmatch h

/-- At the end of a text only an empty match is left. -/
theorem Tiles.of_takeAt_end (hh : here.IsPlaceOf text) (hrest : here.rest = [])
    (htake : p.takeAt here afterMatch = some m) : p.Tiles text here.pos [.found m] := by
  obtain ⟨-, hstop, hle⟩ := of_takeAt_eq_some hh htake
  have hlen := hh.length_rest
  have hlen' := hstop.length_rest
  rw [hrest, List.length_nil] at hlen
  have hnil : m.stop.rest = [] := List.length_eq_zero_iff.1 (by omega)
  exact .of_takeAt hh htake (.of_rest_nil hstop hnil)

theorem stop_eq_of_isEmpty (hh : here.IsPlaceOf text) (htake : p.takeAt here afterMatch = some m)
    (hm : m.isEmpty = true) : m.stop = here := by
  obtain ⟨hstart, hstop, -⟩ := of_takeAt_eq_some hh htake
  refine hstop.eq_of_pos hh ?_
  rw [← hstart]
  exact (eq_of_beq hm).symm

theorem length_rest_stop_lt (hh : here.IsPlaceOf text) (htake : p.takeAt here afterMatch = some m)
    (hm : ¬ m.isEmpty = true) : m.stop.rest.length < here.rest.length := by
  obtain ⟨hstart, hstop, hle⟩ := of_takeAt_eq_some hh htake
  have hne : here.pos ≠ m.stop.pos := by
    rw [← hstart]
    exact fun h => hm (beq_iff_eq.2 h)
  have hlen := hh.length_rest
  have hlen' := hstop.length_rest
  omega

/-- What a search makes of the rest of a text covers it. The induction is over the bound on the
number of steps, which is never short of the characters that are left. -/
theorem tiles_segmentsFrom {left : List Char} (hh : here.IsPlaceOf text)
    (hleft : here.rest.length ≤ left.length) :
    p.Tiles text here.pos (segmentsFrom p.takeAt left here afterMatch) := by
  induction left generalizing here afterMatch with
  | nil =>
    have hrest : here.rest = [] := List.length_eq_zero_iff.1 (Nat.le_zero.1 hleft)
    rw [segmentsFrom]
    cases htake : p.takeAt here afterMatch with
    | none => exact .of_rest_nil hh hrest
    | some m => exact .of_takeAt_end hh hrest htake
  | cons d left ih =>
    simp only [segmentsFrom]
    cases hrest : here.rest with
    | nil =>
      cases htake : p.takeAt here afterMatch with
      | none => exact .of_rest_nil hh hrest
      | some m => exact .of_takeAt_end hh hrest htake
    | cons c rest =>
      have hnext : (here.next c rest).rest.length ≤ left.length := by
        rw [hrest] at hleft
        exact Nat.le_of_succ_le_succ hleft
      cases htake : p.takeAt here afterMatch with
      | none => exact .of_rest_cons hh hrest (ih (hh.next hrest) hnext)
      | some m =>
        dsimp only
        split
        · next hempty =>
          -- The character behind an empty match is outside of all matches.
          refine .of_takeAt hh htake ?_
          rw [stop_eq_of_isEmpty hh htake hempty]
          exact .of_rest_cons hh hrest (ih (hh.next hrest) hnext)
        · next hnonempty =>
          obtain ⟨-, hstop, -⟩ := of_takeAt_eq_some hh htake
          have hlt := length_rest_stop_lt hh htake hnonempty
          exact .of_takeAt hh htake (ih hstop (Nat.le_of_lt_succ (Nat.lt_of_lt_of_le hlt hleft)))

/-- The segments of a text cover it. -/
theorem tiles_segments (p : Pattern) (text : List Char) : p.Tiles text 0 (p.segments text) := by
  rw [segments_eq]
  exact tiles_segmentsFrom (Cursor.isPlaceOf_ofText text) (Nat.le_refl _)

/-! ### What follows from a tiling -/

theorem Tiles.le_start (h : p.Tiles text n segments) (hm : .found m ∈ segments) :
    n ≤ m.start.pos := by
  induction h with
  | done => cases hm
  | plain _ _ ih =>
    have hrest := ih (List.mem_of_ne_of_mem (by simp) hm)
    exact Nat.le_of_succ_le hrest
  | found hstart hmatch _ ih =>
    cases hm with
    | head => exact Nat.le_refl _
    | tail _ hm => exact Nat.le_trans (stop_of_matchAt hstart hmatch).2 (ih hm)

/-- The matches of a tiling come from left to right and do not overlap. -/
theorem Tiles.pairwise (h : p.Tiles text n segments) :
    (segments.filterMap Segment.match?).Pairwise fun m m' => m.stop.pos ≤ m'.start.pos := by
  induction h with
  | done => exact .nil
  | plain _ _ ih => exact ih
  | found _ _ hrest ih =>
    refine List.pairwise_cons.2 ⟨fun m' hm' => ?_, ih⟩
    exact hrest.le_start (mem_filterMap_match?.1 hm')

theorem Tiles.of_found (h : p.Tiles text n segments) (hm : .found m ∈ segments) :
    m.start.IsPlaceOf text ∧ p.matchAt m.start = some ⟨m.stop, m.captures⟩ := by
  induction h with
  | done => cases hm
  | plain _ _ ih => exact ih (List.mem_of_ne_of_mem (by simp) hm)
  | found hstart hmatch _ ih =>
    cases hm with
    | head => exact ⟨hstart, hmatch⟩
    | tail _ hm => exact ih hm

theorem length_text_of_matchAt (hstart : m.start.IsPlaceOf text)
    (hmatch : p.matchAt m.start = some ⟨m.stop, m.captures⟩) :
    m.start.pos + m.text.length = m.stop.pos := by
  have hstop := stop_of_matchAt hstart hmatch
  have hle : m.start.pos ≤ m.stop.pos := hstop.2
  have hend : m.stop.pos ≤ text.length := hstop.1.1
  rw [Match.text, hstart.upTo_eq, List.extract, List.length_take, List.length_drop]
  omega

/-- Segments cover what is behind those in front of them. -/
theorem Tiles.of_append (h : p.Tiles text n (before ++ segments)) :
    p.Tiles text (n + (before.flatMap Segment.source).length) segments := by
  induction before generalizing n with
  | nil => exact h
  | cons s before ih =>
    rw [List.flatMap_cons, List.length_append, ← Nat.add_assoc]
    cases h with
    | plain _ hrest => exact ih hrest
    | found hstart hmatch hrest =>
      rw [Segment.source, length_text_of_matchAt hstart hmatch]
      exact ih hrest

/-- A tiling has the characters of the text in their order. -/
theorem Tiles.flatMap_source (h : p.Tiles text n segments) :
    segments.flatMap Segment.source = text.drop n := by
  induction h with
  | done => exact List.drop_length.symm
  | plain hc _ ih =>
    obtain ⟨hlt, rfl⟩ := List.getElem?_eq_some_iff.1 hc
    rw [List.flatMap_cons, ih, List.drop_eq_getElem_cons hlt]
    rfl
  | found hstart hmatch _ ih =>
    rw [List.flatMap_cons, ih, Segment.source, Match.text, hstart.upTo_eq]
    exact extract_append_drop (stop_of_matchAt hstart hmatch).2

/-- What is in front of a match, the match and what is behind it are the text. -/
theorem source_of_segments (h : p.segments text = before ++ .found m :: segments) :
    before.flatMap Segment.source ++ (m.text ++ segments.flatMap Segment.source) = text := by
  have hsource := (p.tiles_segments text).flatMap_source
  rwa [h, List.flatMap_append, List.flatMap_cons, List.drop_zero] at hsource

/-- Where a match is can be told from what is in front of it. -/
theorem span_of_segments (h : p.segments text = before ++ .found m :: segments) :
    m.span = ((before.flatMap Segment.source).length,
      (before.flatMap Segment.source).length + m.text.length) := by
  have htiles := p.tiles_segments text
  rw [h] at htiles
  have hfound := htiles.of_append
  rw [Nat.zero_add] at hfound
  obtain ⟨hstart, hmatch⟩ := hfound.of_found List.mem_cons_self
  have hpos : m.start.pos = (before.flatMap Segment.source).length := by
    generalize (before.flatMap Segment.source).length = i at hfound
    cases hfound
    rfl
  rw [Match.span, ← hpos, length_text_of_matchAt hstart hmatch]

/-- A rule changes a text at the matches that are not deferred, and nowhere else. -/
theorem Tiles.flatMap_replaceSegment (h : p.Tiles text n segments) (rule : Rule) :
    segments.flatMap rule.replaceSegment = splice text rule.template.fill n
      ((segments.filterMap Segment.match?).filter fun m => !m.hasGroup deferGroup) := by
  have hle : ∀ {i segments}, p.Tiles text i segments → ∀ m ∈
      (segments.filterMap Segment.match?).filter fun m => !m.hasGroup deferGroup,
      i ≤ m.start.pos := by
    intro i segments h m hm
    exact h.le_start (mem_filterMap_match?.1 (List.mem_filter.1 hm).1)
  induction h with
  | done => exact List.drop_length.symm
  | @plain n c segments hc hrest ih =>
    obtain ⟨hlt, rfl⟩ := List.getElem?_eq_some_iff.1 hc
    have hchar : text.extract n (n + 1) = [text[n]] := by
      rw [List.extract, List.drop_eq_getElem_cons hlt, Nat.add_sub_cancel_left]
      rfl
    rw [List.flatMap_cons, ih, Rule.replaceSegment, ← hchar]
    exact extract_append_splice (Nat.le_succ n) (hle hrest)
  | @found m segments hstart hmatch hrest ih =>
    have hcons : (Segment.found m :: segments).filterMap Segment.match? =
        m :: segments.filterMap Segment.match? := rfl
    rw [List.flatMap_cons, ih, Rule.replaceSegment, Rule.replacement, hcons]
    cases hdefer : m.hasGroup deferGroup with
    | true =>
      rw [if_pos rfl, List.filter_cons_of_neg (by simp [hdefer]), Match.text, hstart.upTo_eq]
      exact extract_append_splice (stop_of_matchAt hstart hmatch).2 (hle hrest)
    | false =>
      have hempty : text.extract m.start.pos m.start.pos = [] := by
        rw [List.extract, Nat.sub_self, List.take_zero]
      rw [if_neg Bool.false_ne_true, List.filter_cons_of_pos (by simp [hdefer]), splice, hempty,
        List.nil_append]

/-! ### A pattern in a group -/

/-- A group around a whole pattern takes part in every match, and remembers all of it. -/
theorem exists_captures_of_matchAt_group {index : Nat} {name : Option String} {s : MatchState}
    (hh : here.IsPlaceOf text) (h : (group index name p).matchAt here = some s) :
    ∃ captures, s.captures = ⟨index, name, here, s.place⟩ :: captures := by
  let close (t : MatchState) : MatchState := ⟨t.place, ⟨index, name, here, t.place⟩ :: t.captures⟩
  unfold matchAt at h
  split at h
  · obtain ⟨t, -, -, htk⟩ := onward_run p 0 ⟨here, []⟩ (fun t => some (close t)) s hh h
    obtain rfl : close t = s := Option.some.inj htk
    exact ⟨t.captures, rfl⟩
  · have hfinds : Finds (p.run (m := Wary) 0 ⟨here, []⟩ fun t => succeed (close t)) s :=
      Wary.finds h
    obtain ⟨t, -, -, htk⟩ := onward_run p 0 ⟨here, []⟩ _ s hh hfinds
    obtain rfl : close t = s := eq_of_succeed htk
    exact ⟨t.captures, rfl⟩

theorem hasGroup_of_found {index : Nat} {name : String}
    (hm : .found m ∈ (group index (some name) p).segments text) : m.hasGroup name = true := by
  obtain ⟨hstart, hmatch⟩ := (tiles_segments _ text).of_found hm
  obtain ⟨captures, hcaptures⟩ := exists_captures_of_matchAt_group hstart hmatch
  have hcaptures : m.captures = ⟨index, some name, m.start, m.stop⟩ :: captures := hcaptures
  simp [Match.hasGroup, hcaptures]

end

end Pattern

namespace Rule

variable {rule : Rule} {text : List Char}

/-- A rule that puts back every match puts back the text. -/
theorem applyChars_eq_self
    (h : ∀ m, .found m ∈ rule.pattern.segments text → rule.replacement m = m.text) :
    rule.applyChars text = text := by
  have hsource : ∀ s ∈ rule.pattern.segments text, rule.replaceSegment s = s.source := by
    intro s hs
    cases s with
    | plain c => rfl
    | found m => exact h m hs
  rw [applyChars, List.flatMap_congr hsource, (rule.pattern.tiles_segments text).flatMap_source,
    List.drop_zero]

/-- Group zero is the whole match. -/
theorem fill_read_zero (m : Match) : (Template.read "$0").fill m = m.text := by
  have hread : Template.read "$0" = ⟨[.group (.number 0)]⟩ := by decide
  rw [hread, Template.fill_cons, Template.fill_nil, List.append_nil]
  rfl

/-- A rule edits a text only where matches are, and not in those that are deferred. So a template
that says "the whole match" changes nothing, and neither does any template if the whole pattern is
in the group by which matches are deferred. -/
theorem apply_editsOnlyMatches (rule : Rule) (t : String) :
    (rule.apply t).toList = splice t.toList rule.template.fill 0
        ((rule.pattern.findAll t.toList).filter fun m => !m.hasGroup deferGroup) ∧
      ({ rule with template := .read "$0" } : Rule).apply t = t ∧
      ∀ index, ({ rule with pattern := .group index (some deferGroup) rule.pattern } : Rule).apply t
        = t := by
  refine ⟨?_, ?_, fun index => ?_⟩
  · rw [toList_apply]
    exact (rule.pattern.tiles_segments t.toList).flatMap_replaceSegment rule
  · rw [← String.toList_inj, toList_apply]
    refine applyChars_eq_self fun m _ => ?_
    rw [replacement, fill_read_zero, ite_self]
  · rw [← String.toList_inj, toList_apply]
    refine applyChars_eq_self fun m hm => ?_
    rw [replacement, Pattern.hasGroup_of_found hm, if_pos rfl]

end Rule

end ImportSuffix
