import ImportSuffix.Pattern.Match

/-!
# The places of a text

A text of `n` characters has `n + 1` places. Every state that a run reaches is at one of them, and
none of them lies before the place where the run began: the lemmas here say so for the run of a
pattern with any continuation.
-/

namespace ImportSuffix

namespace Cursor

/-- The place after the first `n` characters of a text. -/
def after (text : List Char) (n : Nat) : Cursor :=
  ⟨if n = 0 then none else text[n - 1]?, text.drop n, n⟩

/-- Whether a cursor is a place of the text. -/
def IsPlaceOf (here : Cursor) (text : List Char) : Prop :=
  here.pos ≤ text.length ∧ here = after text here.pos

/-- The places from a cursor to the end of the text, given the text after it. -/
def onward : List Char → Cursor → List Cursor
  | [], here => [here]
  | c :: rest, here => here :: onward rest (here.next c rest)

/-- All places of a text. -/
def all (text : List Char) : List Cursor :=
  onward text (.ofText text)

theorem isPlaceOf_ofText (text : List Char) : (ofText text).IsPlaceOf text :=
  ⟨Nat.zero_le _, by simp [ofText, after]⟩

/-- The character after a place leads to the next place. -/
theorem IsPlaceOf.next {here : Cursor} {text : List Char} (h : here.IsPlaceOf text)
    {c : Char} {rest : List Char} (hr : here.rest = c :: rest) :
    (here.next c rest).IsPlaceOf text := by
  obtain ⟨_, heq⟩ := h
  have hdrop : text.drop here.pos = c :: rest := by rw [heq] at hr; exact hr
  have hlt : here.pos < text.length := by
    rcases Nat.lt_or_ge here.pos text.length with h | h
    · exact h
    · rw [List.drop_eq_nil_of_le h] at hdrop; cases hdrop
  rw [List.drop_eq_getElem_cons hlt] at hdrop
  injection hdrop with h1 h2
  refine ⟨hlt, ?_⟩
  simp [Cursor.next, after, h2, List.getElem?_eq_getElem hlt, h1]

theorem onward_eq (text : List Char) (here : Cursor) (h : here.IsPlaceOf text) :
    onward here.rest here =
      (List.range' here.pos (text.length + 1 - here.pos)).map (after text) := by
  generalize hr : here.rest = rest
  induction rest generalizing here with
  | nil =>
    have hle := h.1
    have hd : text.drop here.pos = [] := by
      have := congrArg Cursor.rest h.2; rw [hr] at this; exact this.symm
    have hge : text.length ≤ here.pos := List.drop_eq_nil_iff.1 hd
    have : text.length + 1 - here.pos = 1 := by omega
    rw [this]
    simp [onward, ← h.2]
  | cons c rest ih =>
    have hn := h.next hr
    have hlt : here.pos + 1 ≤ text.length := hn.1
    have : text.length + 1 - here.pos = (text.length + 1 - (here.pos + 1)) + 1 := by omega
    rw [onward, ih _ hn rfl, this, List.range'_succ]
    simp [← h.2, Cursor.next]

/-- The places of a text, by their distance from the start. -/
theorem all_eq (text : List Char) :
    all text = (List.range (text.length + 1)).map (after text) := by
  have h := onward_eq text _ (isPlaceOf_ofText text)
  simpa [all, ofText, List.range_eq_range'] using h

theorem length_all (text : List Char) : (all text).length = text.length + 1 := by
  simp [all_eq]

theorem getElem?_all {text : List Char} {here : Cursor} (h : here.IsPlaceOf text) :
    (all text)[here.pos]? = some here := by
  rw [all_eq, List.getElem?_map, List.getElem?_range (Nat.lt_succ_of_le h.1), Option.map_some,
    ← h.2]

end Cursor

section

variable {m : Type → Type} [Search m] [LawfulSearch m] {α : Type} {text : List Char}

/-- What an attempt finds is found by one of its two branches. -/
theorem of_attempt {g : Greed} {on stop : Unit → m α} {x : α} (h : Finds (g.attempt on stop) x) :
    Finds (on ()) x ∨ Finds (stop ()) x := by
  cases g with
  | greedy => exact of_orElse h
  | lazy => exact (of_orElse h).symm

namespace Pattern

/-- A way of going on from a state, as the run of a pattern is one: what it finds is found by the
continuation at a place that is not before the one where it began. -/
def Onward (text : List Char) (body : MatchState → (MatchState → m α) → m α) : Prop :=
  ∀ s k x, s.place.IsPlaceOf text → Finds (body s k) x →
    ∃ t : MatchState, t.place.IsPlaceOf text ∧ s.place.pos ≤ t.place.pos ∧ Finds (k t) x

theorem onward_rounds {body : MatchState → (MatchState → m α) → m α} (hb : Onward text body)
    (g : Greed) (n : Nat) (left : List Char) : Onward text (rounds g n body left) := by
  induction left with
  | nil => exact fun s k x hs h => ⟨s, hs, Nat.le_refl _, of_passing h⟩
  | cons c left ih =>
    intro s k x hs h
    rcases of_attempt (of_passing h) with h | h
    · obtain ⟨t, ht, hle, htk⟩ := hb _ _ _ hs h
      obtain ⟨u, hu, hle', huk⟩ := ih t k x ht htk
      exact ⟨u, hu, Nat.le_trans hle hle', huk⟩
    · exact ⟨s, hs, Nat.le_refl _, h⟩

/-- What the run of a pattern finds is found by its continuation at a place that is not before the
one where the run began. -/
theorem onward_run (p : Pattern) (n : Nat) : Onward (m := m) (α := α) text (p.run n) := by
  induction p generalizing n with
  | empty => exact fun s k x hs h => ⟨s, hs, Nat.le_refl _, h⟩
  | one cls =>
    intro s k x hs h
    rw [run] at h
    split at h
    · exact absurd h not_finds_fail
    · next c rest hr =>
      split at h
      · exact ⟨_, hs.next hr, Nat.le_succ _, of_further h⟩
      · exact absurd h not_finds_fail
  | anchor a =>
    intro s k x hs h
    rw [run] at h
    split at h
    · exact ⟨s, hs, Nat.le_refl _, h⟩
    · exact absurd h not_finds_fail
  | seq p q ihp ihq =>
    intro s k x hs h
    obtain ⟨t, ht, hle, htk⟩ := ihp _ s _ x hs h
    obtain ⟨u, hu, hle', huk⟩ := ihq _ t k x ht htk
    exact ⟨u, hu, Nat.le_trans hle hle', huk⟩
  | alt p q ihp ihq =>
    exact fun s k x hs h => (of_orElse (of_passing h)).elim (ihp _ s k x hs) (ihq _ s k x hs)
  | optional g p ih =>
    exact fun s k x hs h => (of_attempt (of_passing h)).elim (ih _ s k x hs)
      fun h => ⟨s, hs, Nat.le_refl _, h⟩
  | plus g p ih =>
    intro s k x hs h
    obtain ⟨t, ht, hle, htk⟩ := ih _ _ _ _ hs h
    obtain ⟨u, hu, hle', huk⟩ := onward_rounds (ih _) g n _ t k x ht htk
    exact ⟨u, hu, Nat.le_trans hle hle', huk⟩
  | many g p ih => exact fun s k x hs h => onward_rounds (ih _) g n _ s k x hs h
  | group index name p ih =>
    intro s k x hs h
    obtain ⟨t, ht, hle, htk⟩ := ih _ s _ x hs h
    exact ⟨⟨t.place, ⟨index, name, s.place, t.place⟩ :: t.captures⟩, ht, hle, htk⟩

end Pattern

end

namespace Pattern

variable {text : List Char}

/-- A match ends at a place of the text that is not before its beginning. -/
theorem stop_of_matchAt {p : Pattern} {here : Cursor} {s : MatchState}
    (hh : here.IsPlaceOf text) (h : p.matchAt here = some s) :
    s.place.IsPlaceOf text ∧ here.pos ≤ s.place.pos := by
  unfold matchAt at h
  split at h
  · obtain ⟨t, ht, hle, htk⟩ := onward_run p 0 ⟨here, []⟩ some s hh h
    cases htk
    exact ⟨ht, hle⟩
  · obtain ⟨t, ht, hle, htk⟩ := onward_run p 0 ⟨here, []⟩ succeed s hh (Wary.finds h)
    cases eq_of_succeed htk
    exact ⟨ht, hle⟩

/-- The match that a search takes begins at the place of the search and ends at a place of the text
that is not before it. -/
theorem of_takeAt_eq_some {p : Pattern} {here : Cursor} {afterMatch : Bool} {m : Match}
    (hh : here.IsPlaceOf text) (h : p.takeAt here afterMatch = some m) :
    m.start = here ∧ m.stop.IsPlaceOf text ∧ here.pos ≤ m.stop.pos := by
  unfold takeAt take at h
  split at h
  · next s hs =>
    split at h
    · cases h
    · cases h
      exact ⟨rfl, stop_of_matchAt hh hs⟩
  · cases h

end Pattern

end ImportSuffix
