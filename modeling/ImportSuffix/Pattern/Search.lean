import ImportSuffix.Pattern.Marks

/-!
# Searching

A run of a pattern is a search: it tries one way after another until one is accepted. What it keeps
on the way is a matter of its own. A plain search is an `Option` and keeps nothing. A wary one keeps
which of the numbered branch points have been passed since the last character, and passes none of
them twice at one place, whether the first pass has failed or is still under way. So it ends also
where a way leads back to its beginning without a character, and no branch is explored twice.

What can be said of every search is in `LawfulSearch`: whatever it finds is found by one of the ways
it may try, and a way that finds nothing is as good as none.
-/

namespace ImportSuffix

/-- The results of a search, and the means to put together the ways in which it goes on. -/
class Search (m : Type → Type) where
  /-- Nothing is found. -/
  fail {α : Type} : m α
  /-- Something is found, and the search is over. -/
  succeed {α : Type} : α → m α
  /-- The first success of two attempts; the second is made only if the first fails. -/
  orElse {α : Type} : (Unit → m α) → (Unit → m α) → m α
  /-- What passes the branch point of that number. -/
  passing {α : Type} : Nat → (Unit → m α) → m α
  /-- What follows after a character. -/
  further {α : Type} : (Unit → m α) → m α

export Search (fail succeed orElse passing further)

/-- The search that keeps nothing. -/
instance : Search Option where
  fail := none
  succeed x := some x
  orElse first second :=
    match first () with
    | some x => some x
    | none => second ()
  passing _ go := go ()
  further go := go ()

/-- The search that passes no branch point twice at one place: from the numbers of those passed to
what is found, and the numbers of those passed by then. -/
def Wary (α : Type) : Type := Marks → Option α × Marks

instance : Search Wary where
  fail := fun passed => (none, passed)
  succeed x := fun passed => (some x, passed)
  orElse first second := fun passed =>
    match first () passed with
    | (some x, passed) => (some x, passed)
    | (none, passed) => second () passed
  passing n go := fun passed =>
    if passed.has n then (none, passed) else go () (passed.insert n)
  further go := fun passed => ((go () .none).1, passed)

/-- What holds of a search, whatever it keeps: `Finds` says that it may find something. -/
class LawfulSearch (m : Type → Type) [Search m] where
  Finds {α : Type} : m α → α → Prop
  not_finds_fail {α : Type} {x : α} : ¬ Finds (fail : m α) x
  eq_of_succeed {α : Type} {x y : α} : Finds (succeed x : m α) y → x = y
  of_orElse {α : Type} {first second : Unit → m α} {x : α} :
    Finds (orElse first second) x → Finds (first ()) x ∨ Finds (second ()) x
  of_passing {α : Type} {n : Nat} {go : Unit → m α} {x : α} :
    Finds (passing n go) x → Finds (go ()) x
  of_further {α : Type} {go : Unit → m α} {x : α} :
    Finds (further go) x → Finds (go ()) x
  further_eq_fail {α : Type} {go : Unit → m α} :
    (∀ x, ¬ Finds (go ()) x) → further go = fail

export LawfulSearch (Finds not_finds_fail eq_of_succeed of_orElse of_passing of_further
  further_eq_fail)

instance : LawfulSearch Option where
  Finds s x := s = some x
  not_finds_fail h := nomatch h
  eq_of_succeed h := Option.some.inj h
  of_orElse {_ first second x} h := by
    simp only [orElse] at h
    split at h
    · next hf => exact .inl (hf.trans h)
    · exact .inr h
  of_passing h := h
  of_further h := h
  further_eq_fail h := Option.eq_none_iff_forall_ne_some.2 h

instance : LawfulSearch Wary where
  Finds s x := ∃ passed, (s passed).1 = some x
  not_finds_fail := fun ⟨_, h⟩ => nomatch h
  eq_of_succeed := fun ⟨_, h⟩ => Option.some.inj h
  of_orElse {_ first second x} h := by
    obtain ⟨passed, h⟩ := h
    simp only [orElse] at h
    split at h
    · next hf => exact .inl ⟨passed, by rw [hf]; exact h⟩
    · exact .inr ⟨_, h⟩
  of_passing {_ n go x} h := by
    obtain ⟨passed, h⟩ := h
    simp only [passing] at h
    split at h
    · cases h
    · exact ⟨_, h⟩
  of_further h := by
    obtain ⟨_, h⟩ := h
    exact ⟨_, h⟩
  further_eq_fail {_ go} h := by
    funext passed
    have : (go () Marks.none).1 = none :=
      Option.eq_none_iff_forall_ne_some.2 fun x hx => h x ⟨_, hx⟩
    simp only [further, fail, this]

theorem Wary.finds {α : Type} {s : Wary α} {passed : Marks} {x : α} (h : (s passed).1 = some x) :
    Finds s x := ⟨passed, h⟩

/-! The plain search, as one computes with `Option`. -/

@[simp] theorem fail_option {α : Type} : (fail : Option α) = none := rfl

@[simp] theorem succeed_option {α : Type} (x : α) : (succeed x : Option α) = some x := rfl

@[simp] theorem passing_option {α : Type} (n : Nat) (go : Unit → Option α) :
    passing n go = go () := rfl

@[simp] theorem further_option {α : Type} (go : Unit → Option α) : further go = go () := rfl

theorem orElse_option {α : Type} (first second : Unit → Option α) :
    orElse first second = (first ()).or (second ()) := by
  cases h : first () <;> simp [orElse, h]

end ImportSuffix
