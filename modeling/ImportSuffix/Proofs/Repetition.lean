import ImportSuffix.Pattern.Match
import ImportSuffix.Proofs.Quoted

/-!
# Plain runs of simple patterns

What a plain run of a character class, a text or a repeated class comes to, as it is needed to read
a longer pattern piece by piece. For each of them there are two lemmas. `of_run_…` reads a success:
what the text there is, that the continuation succeeds behind it, and for repetitions that it fails
for every amount that would have been preferred. `run_…` says when a run succeeds, or cannot fail.
-/

namespace ImportSuffix

open Text

namespace CharClass

@[simp] theorem contains_quote (c : Char) : quote.contains c = isQuote c := by
  have hone : ∀ d : Char, (ClassItem.range d d).contains c = (c == d) := fun d => by
    simpa [CharClass.contains, CharClass.only] using contains_only d c
  simp only [quote, contains, List.any_cons, List.any_nil, hone, Bool.or_false, Bool.bne_false,
    isQuote]

@[simp] theorem contains_unquoted (c : Char) : unquoted.contains c = !isQuote c := by
  have h := contains_quote c
  simp only [quote, unquoted, contains, Bool.bne_false, Bool.bne_true] at h ⊢
  rw [h]

end CharClass

namespace Cursor

/-- The place behind `w`, if `w` and then `r` follow. -/
def past (here : Cursor) (w r : List Char) : Cursor :=
  ⟨w.getLast?.or here.prev, r, here.pos + w.length⟩

theorem past_nil {here : Cursor} {r : List Char} (h : here.rest = r) : here.past [] r = here := by
  subst h
  rfl

@[simp] theorem past_past (here : Cursor) (u v s r : List Char) :
    (here.past u s).past v r = here.past (u ++ v) r := by
  simp [past, List.getLast?_append, Option.or_assoc, Nat.add_assoc]

theorem next_eq_past (here : Cursor) (c : Char) (r : List Char) :
    here.next c r = here.past [c] r := rfl

@[simp] theorem rest_past (here : Cursor) (w r : List Char) : (here.past w r).rest = r := rfl

theorem isWordSide_past_quote {q : Char} (hq : isQuote q = true) (here : Cursor)
    (s r : List Char) : isWordSide (here.past (s ++ [q]) r).prev = false := by
  rw [past, List.getLast?_concat]
  exact isWord_of_isQuote hq

theorem upTo_past {here : Cursor} {w r : List Char} (h : here.rest = w ++ r) :
    here.upTo (here.past w r) = w := by
  simp [upTo, past, h]

end Cursor

/-- The state behind `w`, if `w` and then `r` follow. -/
def MatchState.past (s : MatchState) (w r : List Char) : MatchState :=
  ⟨s.place.past w r, s.captures⟩

@[simp] theorem MatchState.place_past (s : MatchState) (w r : List Char) :
    (s.past w r).place = s.place.past w r := rfl

@[simp] theorem MatchState.past_past (s : MatchState) (u v t r : List Char) :
    (s.past u t).past v r = s.past (u ++ v) r := by
  simp [past]

theorem MatchState.past_nil {s : MatchState} {r : List Char} (h : s.place.rest = r) :
    s.past [] r = s := by
  rw [past, Cursor.past_nil h]

/-- The state after a group is closed that began at `start`. -/
def MatchState.close (s : MatchState) (index : Nat) (name : Option String) (start : Cursor) :
    MatchState :=
  ⟨s.place, ⟨index, name, start, s.place⟩ :: s.captures⟩

@[simp] theorem MatchState.place_close (s : MatchState) (index : Nat) (name : Option String)
    (start : Cursor) : (s.close index name start).place = s.place := rfl

/-- That a repetition prefers one amount of text to another. -/
def Greed.Prefers (g : Greed) (u w : List Char) : Prop :=
  match g with
  | .greedy => w.length < u.length
  | .lazy => u.length < w.length

theorem Greed.not_prefers_self (g : Greed) (w : List Char) : ¬ g.Prefers w w := by
  cases g <;> exact Nat.lt_irrefl _

theorem Greed.prefers_cons {g : Greed} {c d : Char} {u w : List Char} :
    g.Prefers (c :: u) (d :: w) ↔ g.Prefers u w := by
  cases g <;> exact Nat.succ_lt_succ_iff

namespace Pattern

section

variable {α : Type} {g : Greed} {cls : CharClass} {n : Nat} {s : MatchState}
  {k : MatchState → Option α} {x : α} {c : Char} {w r : List Char}

theorem attempt_greedy (on stop : Unit → Option α) :
    Greed.greedy.attempt on stop = (on ()).or (stop ()) := orElse_option on stop

theorem attempt_lazy (on stop : Unit → Option α) :
    Greed.lazy.attempt on stop = (stop ()).or (on ()) := orElse_option stop on

theorem attempt_eq_none {on stop : Unit → Option α} :
    g.attempt on stop = none ↔ on () = none ∧ stop () = none := by
  cases g with
  | greedy => rw [attempt_greedy, Option.or_eq_none_iff]
  | lazy => rw [attempt_lazy, Option.or_eq_none_iff, and_comm]

/-! ### One after another -/

theorem run_seq (p q : Pattern) :
    (seq p q).run n s k = p.run n s fun t => q.run (n + p.branches) t k := rfl

theorem run_group (index : Nat) (name : Option String) (p : Pattern) :
    (group index name p).run n s k = p.run n s fun t => k (t.close index name s.place) := rfl

theorem run_optional (p : Pattern) :
    (Pattern.optional .greedy p).run n s k = (p.run (n + 1) s k).or (k s) := by
  show Greed.greedy.attempt (fun _ => p.run (n + 1) s k) (fun _ => k s) = _
  exact attempt_greedy _ _

theorem run_boundary :
    boundary.run n s k =
      if Cursor.isWordSide s.place.prev != Cursor.isWordSide s.place.rest.head? then k s
      else none := by
  simp only [boundary, run, Cursor.satisfies, beq_true, fail_option]

/-! ### One character -/

theorem run_one (hr : s.place.rest = c :: r) (hc : cls.contains c = true) :
    (one cls).run n s k = k (s.past [c] r) := by
  simp only [run, hr, hc, if_true, further_option]
  rfl

theorem of_run_one (h : (one cls).run n s k = some x) :
    ∃ c r, s.place.rest = c :: r ∧ cls.contains c = true ∧ k (s.past [c] r) = some x := by
  simp only [run] at h
  split at h
  · cases h
  · next c r hr =>
    split at h
    · next hc => exact ⟨c, r, hr, hc, h⟩
    · cases h

/-! ### A text -/

theorem run_sequence_cons (p : Pattern) (ps : List Pattern) :
    (sequence (p :: ps)).run n s k = p.run n s fun t => (sequence ps).run (n + p.branches) t k := by
  cases ps <;> rfl

theorem run_literal {text : String} (hr : s.place.rest = text.toList ++ r) :
    (literal text).run n s k = k (s.past text.toList r) := by
  unfold literal
  generalize text.toList = w at hr
  induction w generalizing n s with
  | nil => exact congrArg k (MatchState.past_nil hr).symm
  | cons c w ih =>
    rw [List.map_cons, run_sequence_cons, run_one hr (by simp), ih rfl, MatchState.past_past]
    rfl

theorem of_run_literal {text : String} (h : (literal text).run n s k = some x) :
    ∃ r, s.place.rest = text.toList ++ r ∧ k (s.past text.toList r) = some x := by
  unfold literal at h
  generalize text.toList = w at h
  induction w generalizing n s with
  | nil => exact ⟨s.place.rest, rfl, (congrArg k (MatchState.past_nil rfl)).trans h⟩
  | cons c w ih =>
    rw [List.map_cons, run_sequence_cons] at h
    obtain ⟨d, r, hr, hd, hk⟩ := of_run_one h
    obtain rfl : d = c := by simpa using hd
    obtain ⟨r', hr', hk'⟩ := ih hk
    obtain rfl : r = w ++ r' := hr'
    exact ⟨r', hr, by rwa [MatchState.past_past] at hk'⟩

/-! ### A class any number of times -/

theorem run_many_nil (hr : s.place.rest = []) : (many g (one cls)).run n s k = k s := by
  rw [run, hr]
  rfl

theorem run_many_cons (hr : s.place.rest = c :: r) :
    (many g (one cls)).run n s k =
      if cls.contains c = true then
        g.attempt (fun _ => (many g (one cls)).run n (s.past [c] r) k) fun _ => k s
      else k s := by
  have hround : ∀ k' : MatchState → Option α, (one cls).run (n + 1) s k' =
      if cls.contains c = true then k' (s.past [c] r) else none := fun k' => by
    simp only [run, hr, further_option, fail_option]
    rfl
  have hfirst : (many g (one cls)).run n s k =
      g.attempt (fun _ => (one cls).run (n + 1) s fun t => rounds g n
        (fun s k => (one cls).run (n + 1) s k) r t k) fun _ => k s := by
    show rounds g n (fun s k => (one cls).run (n + 1) s k) s.place.rest s k = _
    rw [hr]
    rfl
  rw [hfirst]
  split
  · next hc =>
    simp only [hround, hc, if_true]
    rfl
  · next hc =>
    simp only [hround, hc]
    cases g with
    | greedy => exact attempt_greedy _ _
    | lazy => exact (attempt_lazy _ _).trans (Option.or_none)

/-- A repetition fails only if it fails with every amount of text. -/
theorem run_many_ne_none (hr : s.place.rest = w ++ r) (hw : ∀ c ∈ w, cls.contains c = true)
    (hk : k (s.past w r) ≠ none) : (many g (one cls)).run n s k ≠ none := by
  induction w generalizing s with
  | nil =>
    rw [MatchState.past_nil (show s.place.rest = r from hr)] at hk
    cases hrest : s.place.rest with
    | nil => rwa [run_many_nil hrest]
    | cons c r' =>
      rw [run_many_cons hrest]
      split
      · exact fun hnone => hk (attempt_eq_none.1 hnone).2
      · exact hk
  | cons c w ih =>
    rw [run_many_cons hr, if_pos (hw c List.mem_cons_self)]
    intro hnone
    refine ih rfl (fun d hd => hw d (List.mem_cons_of_mem c hd)) ?_ (attempt_eq_none.1 hnone).1
    rwa [MatchState.past_past]

/-- That a repetition settles on an amount `w` of text, behind which `r` follows: the continuation
succeeds there and fails behind every amount that is preferred. -/
structure Settles (g : Greed) (cls : CharClass) (s : MatchState) (k : MatchState → Option α) (x : α)
    (w r : List Char) : Prop where
  rest : s.place.rest = w ++ r
  all : ∀ c ∈ w, cls.contains c = true
  found : k (s.past w r) = some x
  preferred : ∀ u t, s.place.rest = u ++ t → (∀ c ∈ u, cls.contains c = true) → g.Prefers u w →
    k (s.past u t) = none

/-- A repetition settles before a round on one character more than after it, if it cannot stop there
where stopping is preferred. -/
theorem Settles.cons (h : Settles g cls (s.past [c] (w ++ r)) k x w r)
    (hrest : s.place.rest = c :: (w ++ r)) (hc : cls.contains c = true)
    (hstop : g.Prefers [] (c :: w) → k s = none) : Settles g cls s k x (c :: w) r := by
  obtain ⟨-, hw, hk, hpref⟩ := h
  rw [MatchState.past_past] at hk
  refine ⟨hrest, List.forall_mem_cons.2 ⟨hc, hw⟩, hk, fun u t hut hu hp => ?_⟩
  cases u with
  | nil =>
    rw [MatchState.past_nil (show s.place.rest = t from hut)]
    exact hstop hp
  | cons d u =>
    rw [hrest] at hut
    obtain ⟨rfl, htail⟩ := List.cons.inj hut
    have hnone := hpref u t htail (List.forall_mem_cons.1 hu).2 (Greed.prefers_cons.1 hp)
    rwa [MatchState.past_past] at hnone

/-- A repetition settles on nothing if the continuation succeeds at once and no amount is preferred
behind which it does. -/
theorem Settles.stop (hk : k s = some x)
    (hpref : ∀ u t, s.place.rest = u ++ t → (∀ c ∈ u, cls.contains c = true) → g.Prefers u [] →
      k (s.past u t) = none) : Settles g cls s k x [] s.place.rest :=
  ⟨rfl, fun _ h => (nomatch h), by rwa [MatchState.past_nil rfl], hpref⟩

theorem of_run_many (h : (many g (one cls)).run n s k = some x) :
    ∃ w r, Settles g cls s k x w r := by
  generalize hrest : s.place.rest = rest
  induction rest generalizing s with
  | nil =>
    rw [run_many_nil hrest] at h
    refine ⟨[], _, Settles.stop h fun u t hut _ hp => ?_⟩
    rw [hrest] at hut
    obtain ⟨rfl, -⟩ := List.append_eq_nil_iff.1 hut.symm
    exact absurd hp (g.not_prefers_self [])
  | cons c rest ih =>
    rw [run_many_cons hrest] at h
    split at h
    · next hc =>
      cases g with
      | greedy =>
        rw [attempt_greedy, Option.or_eq_some_iff] at h
        rcases h with hon | ⟨hon, hstop⟩
        · obtain ⟨w, r, hsettles⟩ := ih hon rfl
          obtain rfl : rest = w ++ r := hsettles.rest
          exact ⟨c :: w, r, hsettles.cons hrest hc fun hp => absurd hp (Nat.not_lt_zero _)⟩
        · refine ⟨[], _, Settles.stop hstop fun u t hut hu hp => ?_⟩
          rw [hrest] at hut
          cases u with
          | nil => exact absurd hp (Greed.greedy.not_prefers_self [])
          | cons d u =>
            obtain ⟨rfl, htail⟩ := List.cons.inj hut
            -- The round that comes first has failed, and so for every amount.
            refine Classical.byContradiction fun hk => ?_
            refine run_many_ne_none (g := .greedy) (n := n) (s := s.past [c] rest) (w := u) (r := t)
              htail (List.forall_mem_cons.1 hu).2 ?_ hon
            rwa [MatchState.past_past]
      | lazy =>
        rw [attempt_lazy, Option.or_eq_some_iff] at h
        rcases h with hstop | ⟨hstop, hon⟩
        · exact ⟨[], _, Settles.stop hstop fun u t _ _ hp => absurd hp (Nat.not_lt_zero _)⟩
        · obtain ⟨w, r, hsettles⟩ := ih hon rfl
          obtain rfl : rest = w ++ r := hsettles.rest
          exact ⟨c :: w, r, hsettles.cons hrest hc fun _ => hstop⟩
    · next hc =>
      refine ⟨[], _, Settles.stop h fun u t hut hu hp => ?_⟩
      rw [hrest] at hut
      cases u with
      | nil => exact absurd hp (g.not_prefers_self [])
      | cons d u =>
        obtain rfl : c = d := (List.cons.inj hut).1
        exact absurd (hu c List.mem_cons_self) hc

/-! ### A class once or more -/

theorem run_plus : (plus g (one cls)).run n s k =
    (one cls).run (n + 1) s fun t => (many g (one cls)).run n t k := rfl

theorem run_plus_ne_none (hr : s.place.rest = w ++ r) (hne : w ≠ [])
    (hw : ∀ c ∈ w, cls.contains c = true) (hk : k (s.past w r) ≠ none) :
    (plus g (one cls)).run n s k ≠ none := by
  obtain ⟨c, w, rfl⟩ := List.exists_cons_of_ne_nil hne
  rw [run_plus, run_one hr (hw c List.mem_cons_self)]
  refine run_many_ne_none rfl (fun d hd => hw d (List.mem_cons_of_mem c hd)) ?_
  rwa [MatchState.past_past]

theorem of_run_plus (h : (plus g (one cls)).run n s k = some x) :
    ∃ w r, s.place.rest = w ++ r ∧ w ≠ [] ∧ (∀ c ∈ w, cls.contains c = true) ∧
      k (s.past w r) = some x ∧
      ∀ u t, s.place.rest = u ++ t → u ≠ [] → (∀ c ∈ u, cls.contains c = true) →
        g.Prefers u w → k (s.past u t) = none := by
  rw [run_plus] at h
  obtain ⟨c, rest, hrest, hc, hmany⟩ := of_run_one h
  obtain ⟨w, r, hr, hw, hk, hpref⟩ := of_run_many hmany
  obtain rfl : rest = w ++ r := hr
  rw [MatchState.past_past] at hk
  refine ⟨c :: w, r, hrest, List.cons_ne_nil c w, List.forall_mem_cons.2 ⟨hc, hw⟩, hk, ?_⟩
  intro u t hut hne hu hp
  obtain ⟨d, u, rfl⟩ := List.exists_cons_of_ne_nil hne
  rw [hrest] at hut
  obtain ⟨rfl, htail⟩ := List.cons.inj hut
  have hnone := hpref u t htail (List.forall_mem_cons.1 hu).2 (Greed.prefers_cons.1 hp)
  rwa [MatchState.past_past] at hnone

end

end Pattern

end ImportSuffix
