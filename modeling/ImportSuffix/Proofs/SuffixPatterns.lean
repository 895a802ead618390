import ImportSuffix.Proofs.Repetition
import ImportSuffix.Proofs.Wording
import ImportSuffix.Rule.Suffix

/-!
# The pieces of the patterns of the suffix rules

Both patterns are made of a word `import`, an import clause between white space, the word `from`
with white space after it, and a path with the suffix between quotes. For each of these pieces there
are the two lemmas that there are for a repetition: what a success says of the text, and when a run
cannot fail.

What a match remembers is fixed by what its repetitions prefer. Only the import clause needs that:
its repetition takes as little and the white space before it as much as possible, so it begins and
ends with other characters than white space, if there are any (`of_runClause`).
-/

namespace ImportSuffix

open Text
open Cursor (isWordSide)

/-- That a group has that name and remembers that text. -/
def Capture.Holds (a : Capture) (name : String) (text : List Char) : Prop :=
  a.name = some name ∧ a.text = text

namespace Cursor

theorem isWordSide_past {here : Cursor} {u r : List Char} (h : isWordSide here.prev = false) :
    isWordSide (here.past u r).prev = isWordSide u.getLast? := isWordSide_or h

end Cursor

namespace Rule

open Pattern

section

variable {α : Type} {n : Nat} {s : MatchState} {k : MatchState → Option α} {x : α}
  {ps : List Pattern} {w r gap between stem : List Char} {q : Char}

/-! ### Words -/

theorem of_run_boundary (h : boundary.run n s k = some x) :
    isWordSide s.place.prev = !isWordSide s.place.rest.head? ∧ k s = some x := by
  rw [run_boundary] at h
  split at h
  · next hne => exact ⟨Bool.eq_not.2 (bne_iff_ne.1 hne), h⟩
  · cases h

theorem run_boundary_of_eq (h : isWordSide s.place.prev = !isWordSide s.place.rest.head?) :
    boundary.run n s k = k s := by
  rw [run_boundary, if_pos (bne_iff_ne.2 (Bool.eq_not.1 h))]

theorem of_run_importWord (h : importWord.run n s k = some x) :
    ∃ r, s.place.rest = "import".toList ++ r ∧ isWordSide s.place.prev = false ∧
      isWordSide r.head? = false ∧ k (s.past "import".toList r) = some x := by
  rw [importWord, run_sequence_cons] at h
  obtain ⟨hbefore, h⟩ := of_run_boundary h
  rw [run_sequence_cons] at h
  obtain ⟨r, hr, h⟩ := of_run_literal h
  obtain ⟨hafter, h⟩ := of_run_boundary h
  rw [hr] at hbefore
  exact ⟨r, hr, hbefore, Bool.not_eq_true' _ ▸ hafter.symm, h⟩

theorem run_importWord (hr : s.place.rest = "import".toList ++ r)
    (hbefore : isWordSide s.place.prev = false) (hafter : isWordSide r.head? = false) :
    importWord.run n s k = k (s.past "import".toList r) := by
  rw [importWord, run_sequence_cons, run_boundary_of_eq (by rw [hr, hbefore]; rfl),
    run_sequence_cons, run_literal hr]
  refine run_boundary_of_eq ?_
  rw [MatchState.place_past, Cursor.rest_past, hafter]
  rfl

/-! ### The word `from` and the path -/

theorem of_run_from (h : (sequence (literal "from" :: someBlanks :: ps)).run n s k = some x) :
    ∃ gap r m, IsGap gap ∧ s.place.rest = "from".toList ++ gap ++ r ∧
      (sequence ps).run m (s.past ("from".toList ++ gap) r) k = some x := by
  rw [run_sequence_cons] at h
  obtain ⟨r', hr', h⟩ := of_run_literal h
  rw [run_sequence_cons] at h
  obtain ⟨gap, r, hr, hne, hgap, hfound, -⟩ := of_run_plus h
  rw [MatchState.past_past] at hfound
  obtain rfl : r' = gap ++ r := hr
  refine ⟨gap, r, _, ⟨hne, fun c hc => ?_⟩, by rw [hr', List.append_assoc], hfound⟩
  rw [← CharClass.contains_blank]
  exact hgap c hc

theorem run_from_ne_none (hr : s.place.rest = "from".toList ++ gap ++ r) (hgap : IsGap gap)
    (hk : ∀ m, (sequence ps).run m (s.past ("from".toList ++ gap) r) k ≠ none) :
    (sequence (literal "from" :: someBlanks :: ps)).run n s k ≠ none := by
  rw [List.append_assoc] at hr
  rw [run_sequence_cons, run_literal hr, run_sequence_cons]
  refine run_plus_ne_none rfl hgap.1 (fun c hc => ?_) ?_
  · rw [CharClass.contains_blank]
    exact hgap.2 c hc
  · rw [MatchState.past_past]
    exact hk _

theorem of_run_path {index : Nat} {x : MatchState}
    (h : (sequence [group index (some "path") (star .lazy (one .unquoted)), suffixAndQuote]).run n s
      some = some x) :
    ∃ stem q r a, Unquoted stem ∧ isQuote q = true ∧
      s.place.rest = stem ++ ".js".toList ++ q :: r ∧ a.Holds "path" stem ∧
      x = ⟨s.place.past (stem ++ ".js".toList ++ [q]) r, a :: s.captures⟩ := by
  rw [run_sequence_cons, run_group, Pattern.star_one] at h
  obtain ⟨stem, r₁, hpath⟩ := of_run_many h
  obtain ⟨r₂, hr₂, hsuffix⟩ := of_run_literal hpath.found
  obtain ⟨q, r, hr, hq, hend⟩ := of_run_one hsuffix
  obtain rfl : r₁ = ".js".toList ++ r₂ := hr₂
  obtain rfl : r₂ = q :: r := hr
  refine ⟨stem, q, r, ⟨index, some "path", s.place, (s.past stem (".js".toList ++ q :: r)).place⟩,
    fun c hc => ?_, ?_, ?_, ⟨rfl, Cursor.upTo_past hpath.rest⟩, ?_⟩
  · have hc' := hpath.all c hc
    rwa [CharClass.contains_unquoted, Bool.not_eq_true'] at hc'
  · rwa [CharClass.contains_quote] at hq
  · rw [hpath.rest, List.append_assoc]
  · rw [← Option.some.inj hend]
    simp [MatchState.past, MatchState.close]

theorem run_path_ne_none {index : Nat} (hr : s.place.rest = stem ++ ".js".toList ++ q :: r)
    (hstem : Unquoted stem) (hq : isQuote q = true) :
    (sequence [group index (some "path") (star .lazy (one .unquoted)), suffixAndQuote]).run n s
      some ≠ none := by
  rw [List.append_assoc] at hr
  rw [run_sequence_cons, run_group, Pattern.star_one]
  refine run_many_ne_none hr (fun c hc => ?_) ?_
  · rw [CharClass.contains_unquoted, hstem c hc]
    rfl
  · show suffixAndQuote.run _ _ some ≠ none
    rw [suffixAndQuote, run_seq, run_literal rfl, run_one rfl (by rwa [CharClass.contains_quote])]
    exact Option.some_ne_none _

/-! ### The import clause -/

/-- That a continuation which succeeds goes by the place alone. -/
def GoesByPlace (k : MatchState → Option α) : Prop :=
  ∀ {t t' : MatchState}, t.place = t'.place → k t ≠ none → k t' ≠ none

theorem GoesByPlace.comp {f : MatchState → MatchState} (hk : GoesByPlace k)
    (hf : ∀ t, (f t).place = t.place) : GoesByPlace fun t => k (f t) := by
  intro t t' hplace hne
  exact hk (by rw [hf, hf, hplace]) hne

/-- A text without quotes and white space, where something may be noted in between. -/
def runNoted (note : MatchState → MatchState) (m n : Nat) (s : MatchState)
    (k : MatchState → Option α) : Option α :=
  (plus .lazy (one .unquoted)).run m s fun v => someBlanks.run n (note v) k

theorem runNoted_ne_none {note : MatchState → MatchState} {m : Nat}
    (hnote : ∀ v, (note v).place = v.place) (hk : GoesByPlace k)
    (hr : s.place.rest = w ++ gap ++ r) (hne : w ≠ []) (hw : Unquoted w) (hgap : IsGap gap)
    (hend : k (s.past (w ++ gap) r) ≠ none) : runNoted note m n s k ≠ none := by
  rw [List.append_assoc] at hr
  refine run_plus_ne_none hr hne (fun c hc => by rw [CharClass.contains_unquoted, hw c hc]; rfl) ?_
  refine run_plus_ne_none (by rw [hnote]; rfl) hgap.1
    (fun c hc => by rw [CharClass.contains_blank, hgap.2 c hc]) (hk ?_ hend)
  rw [MatchState.place_past, MatchState.place_past, hnote, MatchState.place_past, Cursor.past_past]

/-- White space, a text without quotes and white space again. -/
def runClause (note : MatchState → MatchState → MatchState) (l m n : Nat) (s : MatchState)
    (k : MatchState → Option α) : Option α :=
  blanks.run l s fun t => runNoted (note t) m n t k

variable {note : MatchState → MatchState → MatchState} {l m : Nat}

theorem runClause_ne_none (hnote : ∀ t v, (note t v).place = v.place) (hk : GoesByPlace k)
    (hr : s.place.rest = between ++ r) (hbetween : Unquoted between)
    (hroom : holdsClause between = true) (hend : k (s.past between r) ≠ none) :
    runClause note l m n s k ≠ none := by
  obtain ⟨w, gap, hne, hgap, rfl⟩ := holdsClause_iff.1 hroom
  -- With nothing for the white space at the beginning the run succeeds already.
  have hstart : s.past [] (w ++ gap ++ r) = s := MatchState.past_nil hr
  refine run_many_ne_none (w := []) (r := w ++ gap ++ r) hr (fun _ hc => nomatch hc) ?_
  rw [hstart]
  exact runNoted_ne_none (hnote s) hk hr hne (unquoted_append.1 hbetween).1 hgap hend

/-- If the white space at the beginning could take one character more and leave the text in the
middle and the white space at the end, it would. -/
theorem eq_none_of_longer_lead {lead u g r₁ : List Char} {c : Char}
    (hnote : ∀ t v, (note t v).place = v.place) (hk : GoesByPlace k)
    (hlead : Settles .greedy .blank s (fun t => runNoted (note t) m n t k) x lead r₁)
    (hcut : r₁ = c :: (u ++ g ++ r)) (hc : isBlank c = true) (hu : u ≠ []) (hunquoted : Unquoted u)
    (hg : IsGap g) : k (s.past (lead ++ [c] ++ (u ++ g)) r) = none := by
  have hrest : s.place.rest = (lead ++ [c]) ++ (u ++ g ++ r) := by
    rw [hlead.rest, hcut, List.append_assoc lead [c]]
    rfl
  have hblank : ∀ d ∈ lead ++ [c], CharClass.blank.contains d = true := by
    intro d hd
    rcases List.mem_append.1 hd with hd | hd
    · exact hlead.all d hd
    · rwa [List.mem_singleton.1 hd, CharClass.contains_blank]
  have hlonger : Greed.greedy.Prefers (lead ++ [c]) lead := by
    show lead.length < (lead ++ [c]).length
    rw [List.length_append]
    exact Nat.lt_succ_self _
  have hnone := hlead.preferred (lead ++ [c]) (u ++ g ++ r) hrest hblank hlonger
  by_contra hend
  refine runNoted_ne_none (hnote _) hk rfl hu hunquoted hg ?_ hnone
  rwa [MatchState.past_past]

/-- A text in the middle that begins with white space is a single character with one more behind
it, if that white space cannot be given to what stands before. -/
theorem single_of_not_cut (hw : Unquoted w) (hgap : IsGap gap)
    (hcut : ∀ c u g, w ++ gap = c :: (u ++ g) → isBlank c = true → u ≠ [] → Unquoted u →
      ¬ IsGap g) :
    ∀ c u, w = c :: u → isBlank c = true → u = [] ∧ gap.length = 1 := by
  rintro c u rfl hc
  have hu : u = [] := by
    by_contra hu
    exact hcut c u gap rfl hc hu (unquoted_cons.1 hw).2 hgap
  subst hu
  obtain ⟨d, g, rfl⟩ := List.exists_cons_of_ne_nil hgap.1
  have hg : g = [] := by
    by_contra hg
    -- The first character of the gap would do as the text in the middle.
    have hd : Unquoted [d] :=
      unquoted_of_blank fun e he => hgap.2 e (List.mem_singleton.1 he ▸ List.mem_cons_self)
    exact hcut c [d] g rfl hc (List.cons_ne_nil d []) hd
      ⟨hg, fun e he => hgap.2 e (List.mem_cons_of_mem d he)⟩
  rw [hg]
  exact ⟨rfl, rfl⟩

/-- The text in the middle is the import clause: every other cut that would be preferred to it ends
at the same place, and so would succeed. -/
theorem of_runClause (hnote : ∀ t v, (note t v).place = v.place) (hk : GoesByPlace k)
    (h : runClause note l m n s k = some x) :
    ∃ lead between gap r, s.place.rest = between ++ r ∧ Unquoted between ∧
      holdsClause between = true ∧ between = lead ++ clauseIn between ++ gap ∧
      k ((note (s.past lead (clauseIn between ++ (gap ++ r)))
        (s.past (lead ++ clauseIn between) (gap ++ r))).past gap r) = some x := by
  obtain ⟨lead, r₁, hlead⟩ := of_run_many h
  obtain ⟨w, r₂, hw₂, hne, hw, hlazy, hpref⟩ := of_run_plus hlead.found
  obtain ⟨gap, r, hr, hgapne, hgap, hend, -⟩ := of_run_plus hlazy
  rw [hnote, MatchState.place_past, Cursor.rest_past] at hr
  obtain rfl : r₂ = gap ++ r := hr
  obtain rfl : r₁ = w ++ (gap ++ r) := hw₂
  have hleadBlank : ∀ c ∈ lead, isBlank c = true := by
    intro c hc
    rw [← CharClass.contains_blank]
    exact hlead.all c hc
  have hwUnquoted : Unquoted w := by
    intro c hc
    have hc' := hw c hc
    rwa [CharClass.contains_unquoted, Bool.not_eq_true'] at hc'
  have hgapBlank : IsGap gap := by
    refine ⟨hgapne, fun c hc => ?_⟩
    rw [← CharClass.contains_blank]
    exact hgap c hc
  -- Whatever the cut, what follows begins here and succeeds.
  have hplace : ∀ t : MatchState, t.place = s.place.past (lead ++ w ++ gap) r → k t ≠ none := by
    intro t ht
    refine hk ?_ (Option.ne_none_iff_exists'.2 ⟨x, hend⟩)
    rw [ht, MatchState.place_past, hnote, MatchState.past_past, MatchState.place_past,
      Cursor.past_past]
  have hgreedy : ∀ c u g, w ++ gap = c :: (u ++ g) → isBlank c = true → u ≠ [] → Unquoted u →
      ¬ IsGap g := by
    intro c u g hcut hc hu hunquoted hg
    have hcut' : w ++ (gap ++ r) = c :: (u ++ g ++ r) := by
      rw [← List.append_assoc, hcut]
      rfl
    refine hplace _ ?_ (eq_none_of_longer_lead hnote hk hlead hcut' hc hu hunquoted hg)
    rw [MatchState.place_past, List.append_assoc lead w gap, hcut, List.append_assoc lead [c]]
    rfl
  have hclause : clauseIn (lead ++ w ++ gap) = w := by
    refine clauseIn_eq hleadBlank hne hgapBlank (single_of_not_cut hwUnquoted hgapBlank hgreedy) ?_
    rintro u c rfl hu
    rw [← Bool.not_eq_true]
    intro hc
    -- The text in the middle could have left this white space to what follows.
    have hrest : (s.past lead (u ++ [c] ++ (gap ++ r))).place.rest = u ++ (c :: gap ++ r) :=
      List.append_assoc u [c] (gap ++ r)
    have hshorter : Greed.lazy.Prefers u (u ++ [c]) := by
      show u.length < (u ++ [c]).length
      rw [List.length_append]
      exact Nat.lt_succ_self _
    have hnone := hpref u (c :: gap ++ r) hrest hu
      (fun d hd => hw d (List.mem_append_left [c] hd)) hshorter
    refine run_plus_ne_none (by rw [hnote]; rfl) (List.cons_ne_nil c gap) (fun d hd => ?_)
      (hplace _ ?_) hnone
    · rw [CharClass.contains_blank]
      rcases List.mem_cons.1 hd with rfl | hd
      · exact hc
      · exact hgapBlank.2 d hd
    · rw [MatchState.place_past, hnote, MatchState.past_past, MatchState.place_past,
        Cursor.past_past, ← List.append_assoc lead u, List.append_assoc (lead ++ u)]
      rfl
  have hroom : holdsClause (lead ++ w ++ gap) = true :=
    holdsClause_iff.2 ⟨lead ++ w, gap, fun hnil => hne (List.append_eq_nil_iff.1 hnil).2, hgapBlank,
      rfl⟩
  refine ⟨lead, lead ++ w ++ gap, gap, r, ?_, ?_, hroom, by rw [hclause], ?_⟩
  · rw [hlead.rest, List.append_assoc, List.append_assoc]
  · exact unquoted_append.2 ⟨unquoted_append.2 ⟨unquoted_of_blank hleadBlank, hwUnquoted⟩,
      unquoted_of_blank hgapBlank.2⟩
  · rw [hclause]
    rwa [MatchState.past_past] at hend

end

end Rule

end ImportSuffix
