import ImportSuffix.Memo
import ImportSuffix.Pattern.Hasty
import ImportSuffix.Pattern.Places

/-!
# What lies ahead of a match

A run that tries the ways to match one after another may come back to the same place by many ways,
only to fail there each time, and so cost far more than the text is long. What spares it that is to
know beforehand which characters lead to a match at all. This is computed from the last place of the
text to the first: for each place and each class of the pattern, whether a match can follow the
class there. The answers for a place depend on the character after it, the anchors that hold there
and the answers for the next place. At most places they are the same as at some place before, so
they are kept in a `Memo`.

A search then begins only where a match can begin and takes a character only if a match can follow
(`Pattern.guide`), so it can be hasty. It finds the same matches (`segments_eq`): the answers never
deny what a run can achieve (`succeedsWithin_run`). They might be too hopeful, because they do not
know which branch points have been passed; a hasty search that they mislead is made again without
haste.
-/

namespace ImportSuffix

/-- What decides about a pattern at a place: which anchors hold there, and which of the pattern's
classes, by their numbers, can take the character there so that a match can follow. -/
structure Spot where
  textStart : Bool
  textEnd : Bool
  boundary : Bool
  takes : Marks
  deriving DecidableEq, Hashable

namespace Spot

/-- Whether an anchor can hold at a spot. Of the places of one text a spot knows nothing. -/
def mayHold (spot : Spot) : Anchor → Bool
  | .textStart => spot.textStart
  | .textEnd => spot.textEnd
  | .wordBoundary holds => spot.boundary == holds
  | .among _ _ => true

end Spot

/-- The spot at a place, if these classes can take the character. -/
def Cursor.spot (here : Cursor) (takes : Marks) : Spot :=
  ⟨here.prev.isNone, here.rest.isEmpty, isWordSide here.prev != isWordSide here.rest.head?, takes⟩

theorem Cursor.mayHold_spot {here : Cursor} {takes : Marks} {a : Anchor} (h : here.satisfies a) :
    (here.spot takes).mayHold a := by
  cases a <;> first | exact h | rfl

/-- What a pattern can do at a spot. The classes are given by their numbers. -/
structure Outlook where
  /-- Whether the pattern can succeed by taking the character here. -/
  taking : Bool
  /-- Whether the pattern can be empty here. -/
  passing : Bool
  /-- The classes after which the rest of the pattern can succeed by taking the character here. -/
  midway : List Nat
  /-- The classes after which the rest of the pattern can be empty here. -/
  ending : List Nat

namespace Pattern

/-- What a pattern can do at a spot, if its classes are numbered from a number on. -/
def look (spot : Spot) : Pattern → Nat → Outlook
  | empty, _ => ⟨false, true, [], []⟩
  | one _, n => ⟨spot.takes.has n, false, [], [n]⟩
  | anchor a, _ => ⟨false, spot.mayHold a, [], []⟩
  | seq p q, n =>
    let first := look spot p n
    let second := look spot q (n + p.classes)
    ⟨first.taking || first.passing && second.taking,
      first.passing && second.passing,
      first.midway ++ ((if second.taking then first.ending else []) ++ second.midway),
      (if second.passing then first.ending else []) ++ second.ending⟩
  | alt p q, n =>
    let first := look spot p n
    let second := look spot q (n + p.classes)
    ⟨first.taking || second.taking, first.passing || second.passing,
      first.midway ++ second.midway, first.ending ++ second.ending⟩
  | optional _ p, n =>
    let once := look spot p n
    ⟨once.taking, true, once.midway, once.ending⟩
  | plus _ p, n =>
    let once := look spot p n
    ⟨once.taking, once.passing, (if once.taking then once.ending else []) ++ once.midway,
      once.ending⟩
  | many _ p, n =>
    let once := look spot p n
    ⟨once.taking, true, (if once.taking then once.ending else []) ++ once.midway, once.ending⟩
  | group _ _ p, n => look spot p n

/-- The classes of a pattern after which a match can follow at a spot. They are numbered from one;
zero stands for the beginning of the pattern. -/
def marksAt (p : Pattern) (spot : Spot) : Marks :=
  let all := p.look spot 1
  .ofList ((if all.taking || all.passing then [0] else []) ++ (all.midway ++ all.ending))

/-- The classes that a character is in, if they are numbered from a number on. -/
def accepting (c : Char) : Pattern → Nat → List Nat
  | empty, _ => []
  | one s, n => if s.contains c then [n] else []
  | anchor _, _ => []
  | seq p q, n => accepting c p n ++ accepting c q (n + p.classes)
  | alt p q, n => accepting c p n ++ accepting c q (n + p.classes)
  | optional _ p, n => accepting c p n
  | plus _ p, n => accepting c p n
  | many _ p, n => accepting c p n
  | group _ _ p, n => accepting c p n

/-- The classes that a character is in, numbered from one. -/
def marksOf (p : Pattern) (c : Char) : Marks := .ofList (p.accepting c 1)

/-- The spot at a place, given the classes after which a match can follow at the next place. -/
def spotAt (p : Pattern) (here : Cursor) (next : Marks) : Spot :=
  match here.rest with
  | [] => here.spot .none
  | c :: _ => here.spot (next.inter (p.marksOf c))

/-- The classes after which a match can follow, for each of some places in a row that end with the
last place of a text. -/
def marks (p : Pattern) (places : List Cursor) : List Marks :=
  places.foldr (fun here later => p.marksAt (p.spotAt here (later.headD .none)) :: later) []

-- Characters are kept by the hash of the core library, whatever others are in scope.
local instance (priority := 2000) hashableChar : Hashable Char := instHashableChar

/-- What has been found out about characters and spots on the way through a text. -/
structure Notes (p : Pattern) where
  marksOf : Memo p.marksOf
  marksAt : Memo p.marksAt

/-- Adds a place in front of places whose marks are known. -/
def Notes.prepend {p : Pattern} (here : Cursor) (known : Notes p × List Marks) :
    Notes p × List Marks :=
  let (notes, later) := known
  match here.rest with
  | [] =>
    let (marks, marksAt) := notes.marksAt.get (here.spot .none)
    (⟨notes.marksOf, marksAt⟩, marks :: later)
  | c :: _ =>
    let (classes, marksOf) := notes.marksOf.get c
    let (marks, marksAt) := notes.marksAt.get (here.spot ((later.headD .none).inter classes))
    (⟨marksOf, marksAt⟩, marks :: later)

/-- The marks of all places of a text, each computed once. -/
def chart (p : Pattern) (text : List Char) : List Marks :=
  let blank : Notes p × List Marks := (⟨.empty, .empty⟩, [])
  ((Cursor.all text).foldr Notes.prepend blank).2

/-- A pattern that takes a character only if a match can follow, given for each place of the text
the classes after which one can at the next place, and the number of the pattern's first class. -/
def guide (later : Array Marks) : Pattern → Nat → Pattern
  | empty, _ => empty
  | one s, n => seq (anchor (.among later n)) (one s)
  | anchor a, _ => anchor a
  | seq p q, n => seq (guide later p n) (guide later q (n + p.classes))
  | alt p q, n => alt (guide later p n) (guide later q (n + p.classes))
  | optional g p, n => optional g (guide later p n)
  | plus g p, n => plus g (guide later p n)
  | many g p, n => many g (guide later p n)
  | group index name p, n => group index name (guide later p n)

/-- The match that a guided pattern takes at a place, looked for only where one can begin, and
hastily. -/
def takeAhead (looks : Array Marks) (guided : Pattern) (here : Cursor) (afterMatch : Bool) :
    Option Match :=
  if here.satisfies (.among looks 0) then take here (guided.matchHastily here) afterMatch else none

/-- Cuts a text into the matches of a pattern, which do not overlap, and the characters between
them. -/
def segments (p : Pattern) (text : List Char) : List Segment :=
  let looks := p.chart text
  segmentsFrom (takeAhead looks.toArray (p.guide looks.tail.toArray 1)) text (.ofText text) false

/-- The matches of a pattern in a text, from left to right. -/
def findAll (p : Pattern) (text : List Char) : List Match :=
  (p.segments text).filterMap fun
    | .plain _ => none
    | .found m => some m

/-! ### An outlook denies nothing that a run achieves -/

section

variable {m : Type → Type} [Search m] [LawfulSearch m] {α : Type} {text : List Char}
  {spots : Nat → Spot} {looks : Nat → Marks} {after : Nat → Bool} {p q : Pattern} {n : Nat}

/-- That the marks at the places of a text have every class of a pattern after which a match can
follow, if `after` says where what follows the pattern can succeed. -/
structure Charts (text : List Char) (spots : Nat → Spot) (looks : Nat → Marks) (p : Pattern)
    (n : Nat) (after : Nat → Bool) : Prop where
  takes : ∀ i ≤ text.length, ∀ c ∈ (Cursor.after text i).rest.head?, ∀ j ∈ p.accepting c n,
    (looks (i + 1)).has j → (spots i).takes.has j
  midway : ∀ i ≤ text.length, ∀ j ∈ (p.look (spots i) n).midway, (looks i).has j
  ending : ∀ i ≤ text.length, ∀ j ∈ (p.look (spots i) n).ending, after i → (looks i).has j

/-- Whether a pattern can succeed at a place, if `after` says where what follows it can. -/
def ahead (spots : Nat → Spot) (p : Pattern) (n : Nat) (after : Nat → Bool) (i : Nat) : Bool :=
  (p.look (spots i) n).taking || (p.look (spots i) n).passing && after i

/-- Where the rounds of a repetition may end or go on: where what follows it can succeed or another
round can take the character. -/
def afterRound (spots : Nat → Spot) (p : Pattern) (n : Nat) (after : Nat → Bool) (i : Nat) : Bool :=
  (p.look (spots i) n).taking || after i

/-- A further round leads nowhere that a single one does not, as long as no character is taken: so a
round can succeed if it can when the repetition ends after it. -/
theorem ahead_afterRound :
    ahead spots p n (afterRound spots p n after) = ahead spots p n after := by
  funext i
  simp only [ahead, afterRound]
  cases (p.look (spots i) n).taking <;> simp

theorem Charts.seq (h : Charts text spots looks (seq p q) n after) :
    Charts text spots looks p n (ahead spots q (n + p.classes) after) ∧
      Charts text spots looks q (n + p.classes) after := by
  obtain ⟨ht, hm, he⟩ := h
  simp only [accepting, look, List.mem_append] at ht hm he
  refine ⟨⟨fun i hi c hc j hj => ht i hi c hc j (.inl hj), fun i hi j hj => hm i hi j (.inl hj),
    fun i hi j hj ha => ?_⟩, ⟨fun i hi c hc j hj => ht i hi c hc j (.inr hj),
    fun i hi j hj => hm i hi j (.inr (.inr hj)), fun i hi j hj => he i hi j (.inr hj)⟩⟩
  rw [ahead, Bool.or_eq_true, Bool.and_eq_true] at ha
  rcases ha with ha | ha
  · exact hm i hi j (.inr (.inl (by simpa [ha] using hj)))
  · exact he i hi j (.inl (by simpa [ha.1] using hj)) ha.2

theorem Charts.alt (h : Charts text spots looks (alt p q) n after) :
    Charts text spots looks p n after ∧ Charts text spots looks q (n + p.classes) after := by
  obtain ⟨ht, hm, he⟩ := h
  simp only [accepting, look, List.mem_append] at ht hm he
  exact ⟨⟨fun i hi c hc j hj => ht i hi c hc j (.inl hj), fun i hi j hj => hm i hi j (.inl hj),
      fun i hi j hj => he i hi j (.inl hj)⟩,
    ⟨fun i hi c hc j hj => ht i hi c hc j (.inr hj), fun i hi j hj => hm i hi j (.inr hj),
      fun i hi j hj => he i hi j (.inr hj)⟩⟩

theorem Charts.optional {g : Greed} (h : Charts text spots looks (optional g p) n after) :
    Charts text spots looks p n after := ⟨h.takes, h.midway, h.ending⟩

theorem Charts.plus {g : Greed} (h : Charts text spots looks (plus g p) n after) :
    Charts text spots looks p n (afterRound spots p n after) := by
  obtain ⟨ht, hm, he⟩ := h
  simp only [accepting, look, List.mem_append] at ht hm he
  refine ⟨ht, fun i hi j hj => hm i hi j (.inr hj), fun i hi j hj ha => ?_⟩
  rw [afterRound, Bool.or_eq_true] at ha
  rcases ha with ha | ha
  · exact hm i hi j (.inl (by simpa [ha] using hj))
  · exact he i hi j hj ha

theorem Charts.many {g : Greed} (h : Charts text spots looks (many g p) n after) :
    Charts text spots looks p n (afterRound spots p n after) :=
  Charts.plus (g := g) ⟨h.takes, h.midway, h.ending⟩

theorem Charts.group {index : Nat} {name : Option String}
    (h : Charts text spots looks (group index name p) n after) :
    Charts text spots looks p n after := ⟨h.takes, h.midway, h.ending⟩

/-- That every anchor that holds at a place can hold at its spot. -/
def Reflects (text : List Char) (spots : Nat → Spot) : Prop :=
  ∀ i ≤ text.length, ∀ a, (Cursor.after text i).satisfies a → (spots i).mayHold a

/-- That a continuation succeeds only at marked places. -/
def SucceedsWithin (text : List Char) (after : Nat → Bool) (k : MatchState → m α) : Prop :=
  ∀ t : MatchState, t.place.IsPlaceOf text → ∀ x, Finds (k t) x → after t.place.pos = true

/-- The rounds of a repetition succeed only where one may end or go on. -/
theorem SucceedsWithin.rounds {g : Greed} {b : Nat} {body : MatchState → (MatchState → m α) → m α}
    (hbody : ∀ k, SucceedsWithin text (afterRound spots p n after) k →
      SucceedsWithin text (ahead spots p n (afterRound spots p n after)) (body · k))
    {k : MatchState → m α} (hk : SucceedsWithin text after k) (left : List Char) :
    SucceedsWithin text (afterRound spots p n after) (rounds g b body left · k) := by
  have hstop : ∀ t : MatchState, t.place.IsPlaceOf text → ∀ x, Finds (k t) x →
      afterRound spots p n after t.place.pos = true := fun t ht x h => by
    simp [afterRound, hk t ht x h]
  induction left with
  | nil => exact fun t ht x h => hstop t ht x (of_passing h)
  | cons c left ih =>
    intro t ht x h
    rcases of_attempt (of_passing h) with h | h
    · have := hbody _ ih t ht x h
      rw [ahead_afterRound, ahead, Bool.or_eq_true, Bool.and_eq_true] at this
      rw [afterRound, Bool.or_eq_true]
      exact this.imp id And.right
    · exact hstop t ht x h

/-- A run that succeeds begins at a place where, by the outlooks, the pattern can. -/
theorem succeedsWithin_run (p : Pattern) {n : Nat} {after : Nat → Bool}
    (hs : Reflects text spots) (hp : Charts text spots looks p n after) (b : Nat)
    {k : MatchState → m α} (hk : SucceedsWithin text after k) :
    SucceedsWithin text (ahead spots p n after) (p.run b · k) := by
  induction p generalizing n after b k with
  | empty => exact fun t ht x h => by simpa [ahead, look] using hk t ht x h
  | one cls =>
    intro s hsp x h
    simp only [run] at h
    split at h
    · exact absurd h not_finds_fail
    · next c rest hr =>
      split at h
      · next hc =>
        have hn := hsp.next hr
        have hafter := hk _ hn x (of_further h)
        have hmark := hp.ending (s.place.pos + 1) hn.1 n (by simp [look]) hafter
        have hhead : c ∈ (Cursor.after text s.place.pos).rest.head? := by simp [← hsp.2, hr]
        have := hp.takes s.place.pos hsp.1 c hhead n (by simp [accepting, hc]) hmark
        simp [ahead, look, this]
      · exact absurd h not_finds_fail
  | anchor a =>
    intro s hsp x h
    simp only [run] at h
    split at h
    · next ha =>
      rw [hsp.2] at ha
      simp [ahead, look, hs _ hsp.1 a ha, hk s hsp x h]
    · exact absurd h not_finds_fail
  | seq p q ihp ihq =>
    obtain ⟨hp, hq⟩ := hp.seq
    intro s hsp x h
    have := ihp hp b (ihq hq _ hk) s hsp x h
    simp only [ahead, look, Bool.or_eq_true, Bool.and_eq_true] at this ⊢
    grind
  | alt p q ihp ihq =>
    obtain ⟨hp, hq⟩ := hp.alt
    intro s hsp x h
    have := (of_orElse (of_passing h)).imp (ihp hp _ hk s hsp x) (ihq hq _ hk s hsp x)
    simp only [ahead, look, Bool.or_eq_true, Bool.and_eq_true] at this ⊢
    grind
  | optional g p ih =>
    intro s hsp x h
    have := (of_attempt (of_passing h)).imp (ih hp.optional _ hk s hsp x) (hk s hsp x)
    simp only [ahead, look, Bool.or_eq_true, Bool.and_eq_true] at this ⊢
    grind
  | plus g p ih =>
    have hbody := fun k (hk : SucceedsWithin text _ k) => ih hp.plus (b + 1) (k := k) hk
    intro s hsp x h
    have := hbody (fun t => Pattern.rounds g b (fun s k => p.run (b + 1) s k) t.place.rest t k)
      (fun t ht x h => SucceedsWithin.rounds hbody hk t.place.rest t ht x h) s hsp x h
    rwa [ahead_afterRound] at this
  | many g p ih =>
    have hbody := fun k (hk : SucceedsWithin text _ k) => ih hp.many (b + 1) (k := k) hk
    intro s hsp x h
    have := SucceedsWithin.rounds hbody hk s.place.rest s hsp x h
    simpa [ahead, look, afterRound] using this
  | group index name p ih =>
    exact fun s hsp x h => ih hp.group b (fun t ht y h =>
      hk ⟨t.place, ⟨index, name, s.place, t.place⟩ :: t.captures⟩ ht y h) s hsp x h

/-! ### A guided pattern matches as the pattern itself -/

@[simp] theorem branches_guide (later : Array Marks) (p : Pattern) (n : Nat) :
    (p.guide later n).branches = p.branches := by
  induction p generalizing n <;> simp_all [guide, branches]

@[simp] theorem mayBeEmpty_guide (later : Array Marks) (p : Pattern) (n : Nat) :
    (p.guide later n).mayBeEmpty = p.mayBeEmpty := by
  induction p generalizing n <;> simp_all [guide, mayBeEmpty]

@[simp] theorem isSteady_guide (later : Array Marks) (p : Pattern) (n : Nat) :
    (p.guide later n).isSteady = p.isSteady := by
  induction p generalizing n <;> simp_all [guide, isSteady]

/-- That two ways of going on from a state agree wherever what follows succeeds only at marked
places. -/
def Agree (text : List Char) (after : Nat → Bool)
    (body body' : MatchState → (MatchState → m α) → m α) : Prop :=
  ∀ k k' : MatchState → m α, SucceedsWithin text after k →
    (∀ t : MatchState, t.place.IsPlaceOf text → k' t = k t) →
    ∀ s : MatchState, s.place.IsPlaceOf text → body' s k' = body s k

/-- Repetitions of bodies that agree agree. -/
theorem Agree.rounds {g : Greed} {b : Nat} {body body' : MatchState → (MatchState → m α) → m α}
    (hbody : ∀ k, SucceedsWithin text (afterRound spots p n after) k →
      SucceedsWithin text (ahead spots p n (afterRound spots p n after)) (body · k))
    (heq : Agree text (afterRound spots p n after) body body') (left : List Char) :
    Agree text after (rounds g b body left) (rounds g b body' left) := by
  intro k k' hk hkk
  induction left with
  | nil =>
    intro s hs
    simp only [Pattern.rounds, hkk s hs]
  | cons c left ih =>
    intro s hs
    simp only [Pattern.rounds, hkk s hs, heq _ _ (SucceedsWithin.rounds hbody hk left) ih s hs]

/-- A pattern that takes a character only if a match can follow runs as it does without. -/
theorem run_guide (p : Pattern) {later : Array Marks} {n : Nat} {after : Nat → Bool}
    (hlater : ∀ i, later.getD i .none = looks (i + 1)) (hs : Reflects text spots)
    (hp : Charts text spots looks p n after) (b : Nat) :
    Agree (m := m) (α := α) text after (p.run b) ((p.guide later n).run b) := by
  induction p generalizing n after b with
  | empty => exact fun _ _ _ hkk s hsp => hkk s hsp
  | one cls =>
    intro k k' hk hkk s hsp
    simp only [guide, run]
    cases hr : s.place.rest with
    | nil => simp only [ite_self]
    | cons c rest =>
      have hn := hsp.next hr
      have hsat : s.place.satisfies (.among later n) = (looks (s.place.pos + 1)).has n := by
        rw [Cursor.satisfies, hlater]
      by_cases ha : after (s.place.pos + 1) = true
      · have hmark : (looks (s.place.pos + 1)).has n = true :=
          hp.ending (s.place.pos + 1) hn.1 n (by simp [look]) ha
        simp only [hsat, hmark, if_true, hkk ⟨s.place.next c rest, s.captures⟩ hn]
      · have hfail : further (fun _ => k ⟨s.place.next c rest, s.captures⟩) = fail :=
          further_eq_fail fun x h => ha (hk ⟨s.place.next c rest, s.captures⟩ hn x h)
        simp only [hkk ⟨s.place.next c rest, s.captures⟩ hn, hfail, ite_self]
  | anchor a => exact fun _ _ _ hkk s hsp => by simp only [guide, run, hkk s hsp]
  | seq p q ihp ihq =>
    obtain ⟨hp, hq⟩ := hp.seq
    intro k k' hk hkk s hsp
    simp only [guide, run, branches_guide]
    exact ihp hp b _ _ (succeedsWithin_run q hs hq _ hk) (ihq hq _ k k' hk hkk) s hsp
  | alt p q ihp ihq =>
    obtain ⟨hp, hq⟩ := hp.alt
    intro k k' hk hkk s hsp
    simp only [guide, run, branches_guide, ihp hp _ k k' hk hkk s hsp, ihq hq _ k k' hk hkk s hsp]
  | optional g p ih =>
    intro k k' hk hkk s hsp
    simp only [guide, run, ih hp.optional _ k k' hk hkk s hsp, hkk s hsp]
  | plus g p ih =>
    have hbody := fun k (hk : SucceedsWithin (m := m) (α := α) text _ k) =>
      succeedsWithin_run p hs hp.plus (b + 1) hk
    intro k k' hk hkk s hsp
    simp only [guide, run]
    exact ih hp.plus (b + 1) _ _
      (fun t ht x h => SucceedsWithin.rounds hbody hk t.place.rest t ht x h)
      (fun t ht => Agree.rounds hbody (ih hp.plus (b + 1)) t.place.rest k k' hk hkk t ht) s hsp
  | many g p ih =>
    have hbody := fun k (hk : SucceedsWithin (m := m) (α := α) text _ k) =>
      succeedsWithin_run p hs hp.many (b + 1) hk
    intro k k' hk hkk s hsp
    exact Agree.rounds hbody (ih hp.many (b + 1)) s.place.rest k k' hk hkk s hsp
  | group index name p ih =>
    intro k k' hk hkk s hsp
    exact ih hp.group b _ _
      (fun t ht => hk ⟨t.place, ⟨index, name, s.place, t.place⟩ :: t.captures⟩ ht)
      (fun t ht => hkk ⟨t.place, ⟨index, name, s.place, t.place⟩ :: t.captures⟩ ht) s hsp

end

/-! ### A search with outlooks finds the same matches -/

section

variable {text : List Char}

theorem Notes.snd_prepend {p : Pattern} (here : Cursor) (known : Notes p × List Marks) :
    (Notes.prepend here known).2 =
      p.marksAt (p.spotAt here (known.2.headD .none)) :: known.2 := by
  cases h : here.rest <;> simp [Notes.prepend, spotAt, h]

/-- The marks of a text are those of its places. -/
theorem chart_eq (p : Pattern) (text : List Char) :
    p.chart text = p.marks (Cursor.all text) := by
  have key : ∀ places : List Cursor, ∀ notes : Notes p,
      (places.foldr Notes.prepend (notes, [])).2 = p.marks places := by
    intro places notes
    induction places with
    | nil => rfl
    | cons here places ih => rw [List.foldr_cons, Notes.snd_prepend, ih]; rfl
  simp only [chart, key]

/-- The marks of each place are made from those of the next one. -/
theorem getElem?_marks (p : Pattern) (places : List Cursor) (i : Nat) :
    (p.marks places)[i]? = places[i]?.map fun here =>
      p.marksAt (p.spotAt here ((p.marks places)[i + 1]?.getD .none)) := by
  induction places generalizing i with
  | nil => rfl
  | cons here rest ih =>
    have hcons : p.marks (here :: rest) =
        p.marksAt (p.spotAt here ((p.marks rest).headD .none)) :: p.marks rest := rfl
    rw [hcons]
    cases i with
    | zero => simp [List.headD_eq_head?_getD, List.head?_eq_getElem?]
    | succ i => simpa using ih i

/-- The spots at the places of a text, as its marks have them. -/
def spots (p : Pattern) (text : List Char) (i : Nat) : Spot :=
  p.spotAt (.after text i) ((p.chart text)[i + 1]?.getD .none)

theorem getD_chart (p : Pattern) {i : Nat} (hi : i ≤ text.length) :
    (p.chart text)[i]?.getD .none = p.marksAt (p.spots text i) := by
  have hall : (Cursor.all text)[i]? = some (.after text i) := by
    simp [Cursor.all_eq, List.getElem?_range (Nat.lt_succ_of_le hi)]
  rw [spots, chart_eq, getElem?_marks, hall, Option.map_some, Option.getD_some]

theorem reflects_spots (p : Pattern) (text : List Char) : Reflects text (p.spots text) := by
  intro i _ a ha
  unfold spots spotAt
  split <;> exact Cursor.mayHold_spot ha

theorem charts_chart (p : Pattern) (text : List Char) :
    Charts text (p.spots text) (fun i => (p.chart text)[i]?.getD .none) p 1 (fun _ => true) := by
  refine ⟨fun i _ c hc j hj hmark => ?_, fun i hi j hj => ?_, fun i hi j hj _ => ?_⟩
  · unfold spots spotAt
    split
    · next h => simp [h] at hc
    · next d rest h =>
      obtain rfl : d = c := by simpa [h] using hc
      rw [Cursor.spot, Marks.has_inter, hmark]
      simp [marksOf, hj]
  · simp [getD_chart p hi, marksAt, hj]
  · simp [getD_chart p hi, marksAt, hj]

/-- A guided pattern that is begun only where a match can begin, and run hastily, takes the match
that the pattern takes. -/
theorem takeAhead_eq (p : Pattern) {here : Cursor} (hh : here.IsPlaceOf text) (afterMatch : Bool) :
    takeAhead (p.chart text).toArray (p.guide (p.chart text).tail.toArray 1) here afterMatch =
      p.takeAt here afterMatch := by
  have hs := reflects_spots p text
  have hc := charts_chart p text
  have hlater : ∀ i, (p.chart text).tail.toArray.getD i .none =
      (fun i => (p.chart text)[i]?.getD .none) (i + 1) := fun i => by
    simp [Array.getD_eq_getD_getElem?]
  have hguide : (p.guide (p.chart text).tail.toArray 1).matchAt here = p.matchAt here := by
    simp only [matchAt, isSteady_guide]
    split
    · exact run_guide p hlater hs hc 0 some some (fun _ _ _ _ => rfl) (fun _ _ => rfl) _ hh
    · rw [run_guide p hlater hs hc 0 succeed succeed (fun _ _ _ _ => rfl) (fun _ _ => rfl) _ hh]
  simp only [takeAhead, takeAt, matchHastily_eq, hguide]
  split
  · rfl
  · next h =>
    have hnone : p.matchAt here = none := by
      refine Option.eq_none_iff_forall_ne_some.2 fun x hx => h ?_
      have hstart : ahead (p.spots text) p 1 (fun _ => true) here.pos = true := by
        unfold matchAt at hx
        split at hx
        · exact succeedsWithin_run p hs hc 0 (k := some) (fun _ _ _ _ => rfl) _ hh x hx
        · exact succeedsWithin_run p hs hc 0 (fun _ _ _ _ => rfl) _ hh x (Wary.finds hx)
      simp only [ahead, Bool.and_true] at hstart
      simp [Cursor.satisfies, Array.getD_eq_getD_getElem?, getD_chart p hh.1, marksAt, hstart]
    rw [hnone]
    rfl

/-- A search that looks ahead cuts the text as one that tries everything. -/
theorem segments_eq (p : Pattern) (text : List Char) :
    p.segments text = segmentsFrom p.takeAt text (.ofText text) false := by
  have key : ∀ (left : List Char) (here : Cursor) (afterMatch : Bool), here.IsPlaceOf text →
      segmentsFrom
          (takeAhead (p.chart text).toArray (p.guide (p.chart text).tail.toArray 1))
          left here afterMatch =
        segmentsFrom p.takeAt left here afterMatch := by
    intro left
    induction left with
    | nil => intro here b hh; simp [segmentsFrom, takeAhead_eq p hh b]
    | cons _ left ih =>
      intro here b hh
      simp only [segmentsFrom, takeAhead_eq p hh b]
      cases ht : p.takeAt here b with
      | none =>
        cases hr : here.rest with
        | nil => rfl
        | cons c rest => simp [ih _ false (hh.next hr)]
      | some m =>
        cases hr : here.rest with
        | nil => rfl
        | cons c rest =>
          simp [ih _ false (hh.next hr), ih _ true (of_takeAt_eq_some hh ht).2.1]
  exact key text _ false (Cursor.isPlaceOf_ofText text)

end

end Pattern

end ImportSuffix
