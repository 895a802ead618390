import ImportSuffix.Pattern.Match

/-!
# Hasty searches

A hasty search never goes back over a character: it takes the first one that it can and forgets what
else it might have tried before. So it has nothing to keep while it goes through a text, however
long that is. It may miss a match, but the one that it finds is the preferred one, because whatever
comes before it was tried and failed on the spot (`matchHastily_eq`).
-/

namespace ImportSuffix

/-- The result of a hasty search as far as the next character. -/
inductive Hasty (α : Type)
  /-- Nothing is found. -/
  | fail
  /-- Something is found. -/
  | succeed (x : α)
  /-- A character is taken, and the search goes on after it. -/
  | further (go : Unit → Hasty α)

namespace Hasty

instance : Search Hasty where
  fail := fail
  succeed := succeed
  orElse first second :=
    match first () with
    | fail => second ()
    | other => other
  passing _ go := go ()
  further := further

/-- What a hasty search finds in the end. -/
def result {α : Type} : Hasty α → Option α
  | fail => none
  | succeed x => some x
  | further go => (go ()).result

/-- What a hasty result says about that of a search for the same that can go back: that it is
nothing, if the hasty one has failed on the spot, and that it is what the hasty one finds, if
anything. -/
def Foretells {α : Type} (hasty : Hasty α) (result : Option α) : Prop :=
  (hasty = .fail → result = none) ∧ ∀ x, hasty.result = some x → result = some x

theorem Foretells.fail {α : Type} : Foretells (.fail : Hasty α) none := ⟨fun _ => rfl, nofun⟩

theorem Foretells.succeed {α : Type} (x : α) : Foretells (.succeed x) (some x) :=
  ⟨nofun, fun _ h => h⟩

theorem Foretells.further {α : Type} {go : Unit → Hasty α} {result : Option α}
    (h : Foretells (go ()) result) : Foretells (.further go) result :=
  ⟨nofun, h.2⟩

end Hasty

/-- The hasty search that passes no branch point twice at one place. -/
def WaryHasty (α : Type) : Type := Marks → Hasty α × Marks

instance : Search WaryHasty where
  fail := fun passed => (.fail, passed)
  succeed x := fun passed => (.succeed x, passed)
  orElse first second := fun passed =>
    match first () passed with
    | (.fail, passed) => second () passed
    | other => other
  passing n go := fun passed =>
    if passed.has n then (.fail, passed) else go () (passed.insert n)
  further go := fun passed => (.further fun _ => (go () .none).1, passed)

/-- That the results of two searches stay related however they are put together. -/
structure Simulation {m r : Type → Type} [Search m] [Search r] {α : Type}
    (R : m α → r α → Prop) : Prop where
  fail : R fail fail
  orElse : ∀ {first second first' second'}, R (first ()) (first' ()) → R (second ()) (second' ()) →
    R (orElse first second) (orElse first' second')
  passing : ∀ {n go go'}, R (go ()) (go' ()) → R (passing n go) (passing n go')
  further : ∀ {go go'}, R (go ()) (go' ()) → R (further go) (further go')

namespace Hasty

theorem simulation_foretells {α : Type} : Simulation (Foretells (α := α)) where
  fail := Foretells.fail
  orElse {first second first' second'} hfirst hsecond := by
    simp only [orElse]
    obtain ⟨hfail, hfind⟩ := hfirst
    cases h : first () with
    | fail => simpa only [hfail h] using hsecond
    | succeed x => simp only [hfind x (by rw [h]; rfl), Foretells.succeed]
    | further go =>
      exact ⟨by simp, fun x hx => by simp only [hfind x (by rw [h]; exact hx)]⟩
  passing h := h
  further h := h.further

/-- A wary hasty search foretells a wary one from whatever has been passed, and where it fails on
the spot it has passed the same. -/
theorem simulation_foretells_wary {α : Type} :
    Simulation (m := WaryHasty) (r := Wary) (α := α) fun hasty wary => ∀ passed,
      Foretells (hasty passed).1 (wary passed).1 ∧
        ((hasty passed).1 = .fail → (hasty passed).2 = (wary passed).2) where
  fail _ := ⟨Foretells.fail, fun _ => rfl⟩
  orElse {first second first' second'} hfirst hsecond passed := by
    obtain ⟨⟨hfail, hfind⟩, hpassed⟩ := hfirst passed
    simp only [orElse]
    rcases h : first () passed with ⟨a, passed₁⟩
    rcases h' : first' () passed with ⟨a', passed₂⟩
    simp only [h, h'] at hfail hfind hpassed
    cases a with
    | fail =>
      simp only [hfail rfl, ← hpassed rfl]
      exact hsecond passed₁
    | succeed x => exact ⟨by simp only [hfind x rfl, Foretells.succeed], by simp⟩
    | further go => exact ⟨⟨by simp, fun x hx => by simp only [hfind x hx]⟩, by simp⟩
  passing {n go go'} h passed := by
    simp only [passing]
    split
    · exact ⟨Foretells.fail, fun _ => rfl⟩
    · exact h _
  further h _ := ⟨(h .none).1.further, by simp⟩

end Hasty

namespace Pattern

section

variable {m r : Type → Type} [Search m] [Search r] {α : Type} {R : m α → r α → Prop}

theorem attempt_related (hR : Simulation R) (g : Greed) {on stop : Unit → m α}
    {on' stop' : Unit → r α} (hon : R (on ()) (on' ())) (hstop : R (stop ()) (stop' ())) :
    R (g.attempt on stop) (g.attempt on' stop') := by
  cases g with
  | greedy => exact hR.orElse hon hstop
  | lazy => exact hR.orElse hstop hon

theorem rounds_related (hR : Simulation R) (g : Greed) (n : Nat)
    {body : MatchState → (MatchState → m α) → m α} {body' : MatchState → (MatchState → r α) → r α}
    (hbody : ∀ s k k', (∀ t, R (k t) (k' t)) → R (body s k) (body' s k')) (left : List Char)
    (s : MatchState) {k : MatchState → m α} {k' : MatchState → r α} (hk : ∀ t, R (k t) (k' t)) :
    R (rounds g n body left s k) (rounds g n body' left s k') := by
  induction left generalizing s with
  | nil => exact hR.passing (hk s)
  | cons c left ih => exact hR.passing (attempt_related hR g (hbody s _ _ fun t => ih t) (hk s))

/-- Two searches that try the same ways find related results. -/
theorem run_related (hR : Simulation R) (p : Pattern) (n : Nat) (s : MatchState)
    {k : MatchState → m α} {k' : MatchState → r α} (hk : ∀ t, R (k t) (k' t)) :
    R (p.run n s k) (p.run n s k') := by
  induction p generalizing n s k k' with
  | empty => exact hk s
  | one cls =>
    simp only [run]
    split
    · exact hR.fail
    · split
      · exact hR.further (hk _)
      · exact hR.fail
  | anchor a =>
    simp only [run]
    split
    · exact hk s
    · exact hR.fail
  | seq p q ihp ihq => exact ihp _ _ fun t => ihq _ t hk
  | alt p q ihp ihq => exact hR.passing (hR.orElse (ihp _ s hk) (ihq _ s hk))
  | optional g p ih => exact hR.passing (attempt_related hR g (ih _ s hk) (hk s))
  | plus g p ih =>
    exact ih _ s fun t => rounds_related hR g n (fun s _ _ hk => ih _ s hk) t.place.rest t hk
  | many g p ih => exact rounds_related hR g n (fun s _ _ hk => ih _ s hk) s.place.rest s hk
  | group index name p ih => exact ih _ s fun t => hk _

end

/-- The preferred match of a pattern that begins at a place, found without going back over a
character if that is possible. -/
def matchHastily (p : Pattern) (here : Cursor) : Option MatchState :=
  let hasty :=
    if p.isSteady then (p.run (m := Hasty) 0 ⟨here, []⟩ succeed).result
    else (p.run (m := WaryHasty) 0 ⟨here, []⟩ succeed .none).1.result
  match hasty with
  | some s => some s
  | none => p.matchAt here

/-- A match that is found hastily is the preferred one. -/
@[simp] theorem matchHastily_eq (p : Pattern) (here : Cursor) :
    p.matchHastily here = p.matchAt here := by
  simp only [matchHastily]
  split
  · next s h =>
    symm
    unfold matchAt
    split at h
    · next hp =>
      rw [if_pos hp]
      exact (run_related Hasty.simulation_foretells p 0 ⟨here, []⟩ Hasty.Foretells.succeed).2 s h
    · next hp =>
      rw [if_neg hp]
      exact (run_related Hasty.simulation_foretells_wary p 0 ⟨here, []⟩
        (fun t _ => ⟨Hasty.Foretells.succeed t, fun _ => rfl⟩) .none).1.2 s h
  · rfl

end Pattern

end ImportSuffix
