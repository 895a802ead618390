import ImportSuffix.Pattern.Match
import Mathlib.Data.List.DropRight

/-!
# The wording of a clause

What makes a run of a text the head of a clause, said without patterns: the run ends in the word
`from` and white space (`beforeFrom?`). The clause is the tail of an import statement if before that
`from` there is the word `import`, with room for an import clause between the two (`statementIn?`).
The leftmost `import` decides: whatever stands after a later one stands after it as well.

A word is told from its two neighbours, none of which may be a word character.
-/

namespace ImportSuffix

namespace Cursor

theorem isWordSide_or {o p : Option Char} (h : isWordSide p = false) :
    isWordSide (o.or p) = isWordSide o := by
  cases o with
  | none => exact h
  | some c => rfl

end Cursor

namespace Text

open Cursor (isWordSide isWordSide_or)

/-! ### White space -/

/-- That a text is white space, and not empty. -/
def IsGap (w : List Char) : Prop := w ≠ [] ∧ ∀ c ∈ w, isBlank c = true

instance (w : List Char) : Decidable (IsGap w) :=
  decidable_of_iff (!w.isEmpty && w.all isBlank) (by simp [IsGap])

/-- No white space is part of a word: the intervals of the two properties are apart. -/
theorem isWord_of_isBlank {c : Char} (h : isBlank c = true) : isWord c = false := by
  have hapart : ∀ a ∈ blanks, ∀ b ∈ words, a.2 < b.1 ∨ b.2 < a.1 := by decide +kernel
  obtain ⟨a, ha, hfirst, hlast⟩ := (Intervals.contains_iff blanks_ascending _).1 h
  rw [← Bool.not_eq_true]
  intro hword
  obtain ⟨b, hb, hfirst', hlast'⟩ := (Intervals.contains_iff words_ascending _).1 hword
  rcases hapart a ha b hb with hlt | hlt
  · exact Nat.not_le.2 hlt (Nat.le_trans hfirst' hlast)
  · exact Nat.not_le.2 hlt (Nat.le_trans hfirst hlast')

/-- A text without its white space. -/
def squeeze (s : List Char) : List Char := s.filter fun c => !isBlank c

@[simp] theorem squeeze_append (s t : List Char) : squeeze (s ++ t) = squeeze s ++ squeeze t :=
  List.filter_append s t

theorem squeeze_eq_nil {w : List Char} (h : ∀ c ∈ w, isBlank c = true) : squeeze w = [] := by
  refine List.filter_eq_nil_iff.2 fun c hc => ?_
  rw [h c hc]
  decide

theorem count_squeeze {c : Char} (hc : isBlank c = false) (s : List Char) :
    (squeeze s).count c = s.count c := by
  refine List.count_filter ?_
  rw [hc]
  decide

theorem rdropWhile_append {p : Char → Bool} {s w : List Char} (h : ∀ c ∈ w, p c = true) :
    (s ++ w).rdropWhile p = s.rdropWhile p := by
  have hw : ∀ c ∈ w.reverse, p c = true := fun c hc => h c (List.mem_reverse.1 hc)
  rw [List.rdropWhile, List.reverse_append, List.dropWhile_append_of_pos hw]
  rfl

theorem squeeze_rdropWhile (s : List Char) : squeeze (s.rdropWhile isBlank) = squeeze s := by
  conv_rhs => rw [← List.rdropWhile_append_rtakeWhile (p := isBlank) (l := s)]
  rw [squeeze_append, squeeze_eq_nil fun c => List.mem_rtakeWhile_imp, List.append_nil]

theorem squeeze_dropWhile (s : List Char) : squeeze (s.dropWhile isBlank) = squeeze s := by
  conv_rhs => rw [← List.takeWhile_append_dropWhile (p := isBlank) (l := s)]
  rw [squeeze_append, squeeze_eq_nil fun c hc => (List.mem_takeWhile_imp hc), List.nil_append]

theorem getLast?_any {p : Char → Bool} {s : List Char} :
    s.getLast?.any p = true ↔ ∃ t c, s = t ++ [c] ∧ p c = true := by
  rw [Option.any_eq_true]
  constructor
  · rintro ⟨c, hlast, hc⟩
    obtain ⟨t, rfl⟩ := List.getLast?_eq_some_iff.1 hlast
    exact ⟨t, c, rfl, hc⟩
  · rintro ⟨t, c, rfl, hc⟩
    exact ⟨c, List.getLast?_concat, hc⟩

/-! ### The word `from` at the end -/

/-- What stands before the word `from` with which a run ends, white space after it aside; there has
to be some. -/
def beforeFrom? (s : List Char) : Option (List Char) :=
  let bare := s.rdropWhile isBlank
  let before := bare.rdrop 4
  if bare ≠ s ∧ bare = before ++ "from".toList ∧ isWordSide before.getLast? = false then some before
  else none

theorem beforeFrom?_eq_some {s before : List Char} :
    beforeFrom? s = some before ↔
      isWordSide before.getLast? = false ∧
        ∃ gap, IsGap gap ∧ s = before ++ "from".toList ++ gap := by
  constructor
  · intro h
    unfold beforeFrom? at h
    dsimp only at h
    split at h
    · next hif =>
      obtain ⟨hne, hbare, hside⟩ := hif
      obtain rfl := Option.some.inj h
      have hs := List.rdropWhile_append_rtakeWhile (p := isBlank) (l := s)
      refine ⟨hside, s.rtakeWhile isBlank, ⟨fun hnil => hne ?_, fun c => List.mem_rtakeWhile_imp⟩,
        ?_⟩
      · rwa [hnil, List.append_nil] at hs
      · rw [← hbare, hs]
    · cases h
  · rintro ⟨hside, gap, ⟨hne, hgap⟩, rfl⟩
    have hlast : "from".toList = "fro".toList ++ ['m'] := rfl
    have hbare : (before ++ "from".toList ++ gap).rdropWhile isBlank = before ++ "from".toList := by
      rw [rdropWhile_append hgap, hlast, ← List.append_assoc]
      exact List.rdropWhile_concat_neg isBlank _ 'm' (by decide)
    have hbefore : (before ++ "from".toList).rdrop 4 = before := List.rdrop_append_length
    have hself : before ++ "from".toList ≠ before ++ "from".toList ++ gap := by
      intro h
      exact hne (List.self_eq_append_right.1 h)
    unfold beforeFrom?
    dsimp only
    rw [hbare, hbefore, if_pos ⟨hself, rfl, hside⟩]

/-- That a run ends in the word `from` and white space. -/
def EndsInFrom (s : List Char) : Prop := (beforeFrom? s).isSome

instance (s : List Char) : Decidable (EndsInFrom s) := inferInstanceAs (Decidable (_ = true))

theorem endsInFrom_iff {s : List Char} : EndsInFrom s ↔ ∃ before, beforeFrom? s = some before :=
  Option.isSome_iff_exists

theorem EndsInFrom.getLast? {s : List Char} (h : EndsInFrom s) :
    s.getLast?.any isBlank = true := by
  obtain ⟨before, hbefore⟩ := endsInFrom_iff.1 h
  obtain ⟨-, gap, ⟨hne, hgap⟩, rfl⟩ := beforeFrom?_eq_some.1 hbefore
  rw [List.getLast?_append_of_ne_nil _ hne, List.getLast?_eq_some_getLast hne]
  exact hgap _ (List.getLast_mem hne)

/-! ### The suffix at the end -/

/-- What stands before the suffix with which a run ends. -/
def beforeSuffix? (s : List Char) : Option (List Char) :=
  if ".js".toList <:+ s then some (s.rdrop 3) else none

theorem beforeSuffix?_eq_some {s stem : List Char} :
    beforeSuffix? s = some stem ↔ s = stem ++ ".js".toList := by
  have hstem : ∀ t : List Char, (t ++ ".js".toList).rdrop 3 = t := fun t => List.rdrop_append_length
  unfold beforeSuffix?
  constructor
  · intro h
    split at h
    · next hs =>
      obtain ⟨t, rfl⟩ := hs
      rw [hstem] at h
      rw [Option.some.inj h]
    · cases h
  · rintro rfl
    rw [if_pos (List.suffix_append stem _), hstem]

/-- A run that ends in the suffix does not end in `from` and white space. -/
theorem not_endsInFrom_of_suffix {s : List Char} (h : ".js".toList <:+ s) : ¬ EndsInFrom s := by
  intro hfrom
  obtain ⟨t, rfl⟩ := h
  have hlast := hfrom.getLast?
  rw [List.getLast?_append_of_ne_nil _ (by decide)] at hlast
  exact absurd hlast (by decide)

/-- That a run ends in the word `from`, white space and the suffix: as a path it becomes the head of
a clause when it loses the suffix. -/
def EndsInFromSuffix (s : List Char) : Prop := ∃ stem ∈ beforeSuffix? s, EndsInFrom stem

instance (s : List Char) : Decidable (EndsInFromSuffix s) :=
  match h : beforeSuffix? s with
  | none => isFalse (by rintro ⟨stem, hs, -⟩; rw [h] at hs; cases hs)
  | some stem => decidable_of_iff (EndsInFrom stem)
      ⟨fun hf => ⟨stem, h, hf⟩, fun ⟨t, ht, hf⟩ => by rw [h] at ht; cases ht; exact hf⟩

theorem endsInFromSuffix_append {stem : List Char} :
    EndsInFromSuffix (stem ++ ".js".toList) ↔ EndsInFrom stem := by
  have hstem : beforeSuffix? (stem ++ ".js".toList) = some stem := beforeSuffix?_eq_some.2 rfl
  constructor
  · rintro ⟨t, ht, hf⟩
    rw [hstem] at ht
    cases ht
    exact hf
  · exact fun hf => ⟨stem, hstem, hf⟩

/-! ### The word `import` -/

/-- Splits a text at the leftmost place where it has a word, given the character before the text:
what stands before the word and what stands after it. -/
def splitAtWord (word : List Char) : Option Char → List Char → Option (List Char × List Char)
  | _, [] => none
  | prev, c :: rest =>
    let after := (c :: rest).drop word.length
    if word <+: c :: rest ∧ isWordSide prev = false ∧ isWordSide after.head? = false then
      some ([], after)
    else (splitAtWord word (some c) rest).map fun (before, after) => (c :: before, after)

theorem getLast?_cons_or (c : Char) (s : List Char) (prev : Option Char) :
    (c :: s).getLast?.or prev = s.getLast?.or (some c) := by
  rw [List.getLast?_cons]
  cases s.getLast? <;> rfl

/-- Where a text is split, it has the word. -/
theorem of_splitAtWord {word s before after : List Char} {prev : Option Char}
    (h : splitAtWord word prev s = some (before, after)) :
    s = before ++ word ++ after ∧ isWordSide (before.getLast?.or prev) = false ∧
      isWordSide after.head? = false := by
  induction s generalizing prev before with
  | nil => cases h
  | cons c rest ih =>
    rw [splitAtWord] at h
    split at h
    · next hif =>
      obtain ⟨⟨t, ht⟩, hprev, hafter⟩ := hif
      have hdrop : (c :: rest).drop word.length = t := by rw [← ht, List.drop_left]
      rw [hdrop] at h hafter
      obtain ⟨rfl, rfl⟩ := Prod.mk.inj (Option.some.inj h)
      exact ⟨ht.symm, hprev, hafter⟩
    · obtain ⟨⟨b, a⟩, hsplit, heq⟩ := Option.map_eq_some_iff.1 h
      obtain ⟨rfl, rfl⟩ := Prod.mk.inj heq
      obtain ⟨hs, hprev, hafter⟩ := ih hsplit
      refine ⟨?_, ?_, hafter⟩
      · rw [hs]
        rfl
      · rwa [getLast?_cons_or]

/-- A text that has a word is split, and not to the right of it. -/
theorem splitAtWord_of_eq {word s before after : List Char} {prev : Option Char} (hword : word ≠ [])
    (hs : s = before ++ word ++ after) (hbefore : isWordSide (before.getLast?.or prev) = false)
    (hafter : isWordSide after.head? = false) :
    ∃ b a, splitAtWord word prev s = some (b, a) ∧ b.length ≤ before.length := by
  induction s generalizing prev before with
  | nil => simp [hword] at hs
  | cons c rest ih =>
    rw [splitAtWord]
    split
    · exact ⟨[], _, rfl, Nat.zero_le _⟩
    · next hif =>
      cases before with
      | nil =>
        -- The word stands here, so this is where the text would be split.
        refine absurd ?_ hif
        rw [List.nil_append] at hs
        rw [hs, List.drop_left]
        exact ⟨List.prefix_append word after, hbefore, hafter⟩
      | cons d before =>
        rw [List.cons_append, List.cons_append] at hs
        obtain ⟨rfl, hrest⟩ := List.cons.inj hs
        rw [getLast?_cons_or] at hbefore
        obtain ⟨b, a, hsplit, hle⟩ := ih hrest hbefore
        exact ⟨c :: b, a, by rw [hsplit]; rfl, Nat.succ_le_succ hle⟩

/-! ### Import statements -/

/-- Whether there is room for an import clause, and white space after it, between `import` and
`from`. -/
def holdsClause (s : List Char) : Bool := 2 ≤ s.length && s.getLast?.any isBlank

theorem holdsClause_iff {s : List Char} :
    holdsClause s = true ↔ ∃ w gap, w ≠ [] ∧ IsGap gap ∧ s = w ++ gap := by
  rw [holdsClause, Bool.and_eq_true, decide_eq_true_eq, getLast?_any]
  constructor
  · rintro ⟨hlen, w, c, rfl, hc⟩
    refine ⟨w, [c], ?_, ⟨List.cons_ne_nil c [], fun d hd => List.mem_singleton.1 hd ▸ hc⟩, rfl⟩
    rintro rfl
    exact absurd hlen (Nat.not_succ_le_self 1)
  · rintro ⟨w, gap, hw, ⟨hne, hgap⟩, rfl⟩
    have hwpos : 0 < w.length := List.length_pos_iff.2 hw
    have hpos : 0 < gap.length := List.length_pos_iff.2 hne
    obtain ⟨t, c, rfl⟩ := (List.eq_nil_or_concat gap).resolve_left hne
    rw [List.concat_eq_append] at hgap hpos ⊢
    refine ⟨by rw [List.length_append]; omega, w ++ t, c, (List.append_assoc w t [c]).symm, ?_⟩
    exact hgap c (List.mem_append_right t List.mem_cons_self)

theorem head?_append_of_holdsClause {s : List Char} (h : holdsClause s = true) (r : List Char) :
    (s ++ r).head? = s.head? := by
  cases s with
  | nil => exact absurd h (by decide)
  | cons c s => rfl

/-- The leftmost word `import` of a text that is followed by `from`: what stands before it and what
stands between it and `from`, if the latter has room for an import clause. -/
def statementIn? (s : List Char) : Option (List Char × List Char) :=
  (splitAtWord "import".toList none s).filter fun (_, between) => holdsClause between

/-- That a text, which is followed by `from`, has the word `import` with room for an import clause
after it. -/
structure HoldsStatement (s lead between : List Char) : Prop where
  eq : s = lead ++ "import".toList ++ between
  before : isWordSide lead.getLast? = false
  after : isWordSide between.head? = false
  room : holdsClause between = true

theorem of_statementIn? {s lead between : List Char} (h : statementIn? s = some (lead, between)) :
    HoldsStatement s lead between := by
  obtain ⟨hsplit, hroom⟩ := Option.filter_eq_some_iff.1 h
  obtain ⟨hs, hlead, hbetween⟩ := of_splitAtWord hsplit
  rw [Option.or_none] at hlead
  exact ⟨hs, hlead, hbetween, hroom⟩

/-- What stands before the `from` of an import statement ends in white space, so not within a
word. -/
theorem HoldsStatement.isWordSide_getLast? {s lead between : List Char}
    (h : HoldsStatement s lead between) : isWordSide s.getLast? = false := by
  have hroom := h.room
  rw [holdsClause, Bool.and_eq_true] at hroom
  obtain ⟨t, c, rfl, hc⟩ := getLast?_any.1 hroom.2
  rw [h.eq, ← List.append_assoc, List.getLast?_concat]
  exact isWord_of_isBlank hc

/-- Any word `import` with room after it makes an import statement, which begins at the leftmost
one. -/
theorem HoldsStatement.exists_statementIn? {s lead between : List Char}
    (h : HoldsStatement s lead between) :
    ∃ l b, statementIn? s = some (l, b) ∧ l.length ≤ lead.length := by
  have hlead : isWordSide (lead.getLast?.or none) = false := by
    rw [Option.or_none]
    exact h.before
  obtain ⟨l, b, hsplit, hle⟩ := splitAtWord_of_eq (by decide) h.eq hlead h.after
  refine ⟨l, b, Option.filter_eq_some_iff.2 ⟨hsplit, ?_⟩, hle⟩
  have hsame : l ++ "import".toList ++ b = lead ++ "import".toList ++ between := by
    rw [← (of_splitAtWord hsplit).1, h.eq]
  -- What stands after the leftmost `import` ends with what stands after this one.
  have hlen : between.length ≤ b.length := by
    have hsum := congrArg List.length hsame
    simp only [List.length_append] at hsum
    omega
  obtain ⟨t, rfl⟩ : between <:+ b := List.suffix_of_suffix_length_le ⟨_, rfl⟩ ⟨_, hsame⟩ hlen
  obtain ⟨w, gap, hw, hgap, rfl⟩ := holdsClause_iff.1 h.room
  exact holdsClause_iff.2 ⟨t ++ w, gap, fun hnil => hw (List.append_eq_nil_iff.1 hnil).2, hgap,
    (List.append_assoc t w gap).symm⟩

/-- The `import` of a text's statement is the leftmost one that makes a statement. -/
theorem HoldsStatement.length_le {s lead lead' between between' : List Char}
    (h : HoldsStatement s lead' between') (hst : statementIn? s = some (lead, between)) :
    lead.length ≤ lead'.length := by
  obtain ⟨l, b, hl, hle⟩ := h.exists_statementIn?
  rw [hst] at hl
  obtain ⟨rfl, -⟩ := Prod.mk.inj (Option.some.inj hl)
  exact hle

/-- The import clause between `import` and `from`: what stands there without the white space around
it, or if there is only white space, the last character but one of that. -/
def clauseIn (s : List Char) : List Char :=
  if s.all isBlank then (s.rdrop 1).getLast?.toList
  else (s.dropWhile isBlank).rdropWhile isBlank

/-- What tells the import clause: it neither begins nor ends with white space, unless it is a single
character and only one more follows. -/
theorem clauseIn_eq {lead w gap : List Char} (hlead : ∀ c ∈ lead, isBlank c = true) (hw : w ≠ [])
    (hgap : IsGap gap) (hfirst : ∀ c u, w = c :: u → isBlank c = true → u = [] ∧ gap.length = 1)
    (hlast : ∀ u c, w = u ++ [c] → u ≠ [] → isBlank c = false) :
    clauseIn (lead ++ w ++ gap) = w := by
  obtain ⟨c, u, rfl⟩ := List.exists_cons_of_ne_nil hw
  cases hc : isBlank c with
  | true =>
    obtain ⟨rfl, hlen⟩ := hfirst c u rfl hc
    obtain ⟨g, rfl⟩ := List.length_eq_one_iff.1 hlen
    have hall : (lead ++ [c] ++ [g]).all isBlank = true := by
      refine List.all_eq_true.2 fun d hd => ?_
      simp only [List.mem_append, List.mem_singleton] at hd
      rcases hd with (hd | rfl) | rfl
      · exact hlead d hd
      · exact hc
      · exact hgap.2 d List.mem_cons_self
    rw [clauseIn, if_pos hall, show 1 = [g].length from rfl, List.rdrop_append_length,
      List.getLast?_concat]
    rfl
  | false =>
    have hsome : ¬ (lead ++ c :: u ++ gap).all isBlank = true := by
      intro hall
      have hmem : c ∈ lead ++ c :: u ++ gap :=
        List.mem_append_left gap (List.mem_append_right lead List.mem_cons_self)
      rw [List.all_eq_true.1 hall c hmem] at hc
      cases hc
    have hdrop : (lead ++ (c :: u ++ gap)).dropWhile isBlank = c :: u ++ gap := by
      rw [List.dropWhile_append_of_pos hlead, List.cons_append]
      exact List.dropWhile_cons_of_neg (by rw [hc]; decide)
    obtain ⟨v, d, hvd⟩ := (List.eq_nil_or_concat (c :: u)).resolve_left hw
    rw [List.concat_eq_append] at hvd
    have hd : isBlank d = false := by
      cases v with
      | nil =>
        obtain ⟨rfl, -⟩ := List.cons.inj hvd
        exact hc
      | cons e v => exact hlast _ d hvd (List.cons_ne_nil e v)
    rw [clauseIn, if_neg hsome, List.append_assoc, hdrop, rdropWhile_append hgap.2, hvd]
    exact List.rdropWhile_concat_neg isBlank v d (by rw [hd]; decide)

theorem clauseIn_sublist (s : List Char) : (clauseIn s).Sublist s := by
  unfold clauseIn
  split
  · cases h : (s.rdrop 1).getLast? with
    | none => exact List.nil_sublist s
    | some c =>
      have hmem : c ∈ s := List.mem_of_mem_take (List.mem_of_getLast? h)
      exact List.singleton_sublist.2 hmem
  · exact (List.rdropWhile_prefix isBlank _).sublist.trans (List.dropWhile_sublist isBlank)

@[simp] theorem squeeze_clauseIn (s : List Char) : squeeze (clauseIn s) = squeeze s := by
  unfold clauseIn
  split
  · next hall =>
    have hblank := List.all_eq_true.1 hall
    rw [squeeze_eq_nil hblank]
    refine squeeze_eq_nil fun c hc => hblank c ?_
    exact List.mem_of_mem_take (List.mem_of_getLast? (Option.mem_toList.1 hc))
  · rw [squeeze_rdropWhile, squeeze_dropWhile]

/-- The white space that ends what stands before `from` is not part of the import clause. -/
theorem length_clauseIn {s : List Char} (h : holdsClause s = true) :
    (clauseIn s).length + 1 ≤ s.length := by
  simp only [holdsClause, Bool.and_eq_true, decide_eq_true_eq] at h
  obtain ⟨hlen, hlast⟩ := h
  unfold clauseIn
  split
  · cases (s.rdrop 1).getLast? with
    | none => exact Nat.le_trans (Nat.le_refl 1) (Nat.le_of_succ_le hlen)
    | some c => exact hlen
  · obtain ⟨t, c, rfl, hc⟩ := getLast?_any.1 hlast
    have hdrop : ((t ++ [c]).dropWhile isBlank).rdropWhile isBlank =
        (t.dropWhile isBlank).rdropWhile isBlank := by
      rw [List.dropWhile_append]
      split
      · next hnil => simp [hc, List.isEmpty_iff.1 hnil]
      · exact List.rdropWhile_concat_pos isBlank _ c hc
    rw [hdrop, List.length_append, List.length_singleton]
    have hle := ((List.rdropWhile_prefix isBlank (t.dropWhile isBlank)).sublist.trans
      (List.dropWhile_sublist isBlank)).length_le
    omega

/-! ### Two texts in a row -/

/-- That a text has a word as a word of its own. -/
def HasWord (word s : List Char) : Prop := (splitAtWord word none s).isSome

instance (word s : List Char) : Decidable (HasWord word s) :=
  inferInstanceAs (Decidable (_ = true))

theorem hasWord_iff {word s : List Char} (hword : word ≠ []) : HasWord word s ↔
    ∃ before after, s = before ++ word ++ after ∧ isWordSide before.getLast? = false ∧
      isWordSide after.head? = false := by
  constructor
  · intro h
    obtain ⟨⟨before, after⟩, hsplit⟩ := Option.isSome_iff_exists.1 h
    obtain ⟨hs, hbefore, hafter⟩ := of_splitAtWord hsplit
    rw [Option.or_none] at hbefore
    exact ⟨before, after, hs, hbefore, hafter⟩
  · rintro ⟨before, after, hs, hbefore, hafter⟩
    have hbefore' : isWordSide (before.getLast?.or none) = false := by rwa [Option.or_none]
    obtain ⟨b, a, hsplit, -⟩ := splitAtWord_of_eq hword hs hbefore' hafter
    exact Option.isSome_iff_exists.2 ⟨(b, a), hsplit⟩

section

variable {word s t : List Char}

/-- A word at the beginning of two texts in a row is one of the first text, if that is not empty and
does not end within a word. -/
theorem exists_of_isPrefix_append (hword : ∀ c ∈ word, isWord c = true) (hs : s ≠ [])
    (hside : isWordSide s.getLast? = false) (h : word <+: s ++ t) :
    ∃ c r, s = word ++ c :: r := by
  -- Otherwise the last character of the text would be one of the word.
  have hlast : ¬ s <+: word := by
    intro hstarts
    have hmem := hword _ (hstarts.subset (List.getLast_mem hs))
    rw [List.getLast?_eq_some_getLast hs, isWordSide, hmem] at hside
    cases hside
  obtain ⟨u, hu⟩ := h
  obtain ⟨r, rfl, -⟩ | ⟨r, rfl, -⟩ := List.append_eq_append_iff.1 hu
  · cases r with
    | nil => exact absurd ⟨[], by simp⟩ hlast
    | cons c r => exact ⟨c, r, rfl⟩
  · exact absurd (List.prefix_append s r) hlast

theorem isWord_of_mem_from : ∀ c ∈ "from".toList, isWord c = true :=
  List.all_eq_true.1 (by decide +kernel)

theorem isWord_of_mem_import : ∀ c ∈ "import".toList, isWord c = true :=
  List.all_eq_true.1 (by decide +kernel)

/-- Whether a word begins at the start of a text is decided by whether one ends before it. -/
theorem splitAtWord_congr {p q : Option Char} (h : isWordSide p = isWordSide q) :
    splitAtWord word p s = splitAtWord word q s := by
  cases s with
  | nil => rfl
  | cons c rest => rw [splitAtWord, splitAtWord, h]

/-- Two texts in a row are split where the second one is, if the first has not got the word and does
not end within one. -/
theorem splitAtWord_append {prev : Option Char} (hword : ∀ c ∈ word, isWord c = true)
    (hs : splitAtWord word prev s = none) (hside : isWordSide (s.getLast?.or prev) = false) :
    splitAtWord word prev (s ++ t) =
      (splitAtWord word none t).map fun (before, after) => (s ++ before, after) := by
  induction s generalizing prev with
  | nil =>
    have hprev : splitAtWord word prev t = splitAtWord word none t := splitAtWord_congr hside
    rw [List.nil_append, hprev]
    cases splitAtWord word none t <;> rfl
  | cons c rest ih =>
    rw [splitAtWord] at hs
    split at hs
    · cases hs
    · next hif =>
      have hrest : splitAtWord word (some c) rest = none := Option.map_eq_none_iff.1 hs
      have hside' := hside
      rw [getLast?_cons_or] at hside'
      have hif' : ¬ (word <+: c :: (rest ++ t) ∧ isWordSide prev = false ∧
          isWordSide ((c :: (rest ++ t)).drop word.length).head? = false) := by
        rintro ⟨hstarts, hprev, hafter⟩
        rw [List.getLast?_cons, Option.some_or, ← List.getLast?_cons] at hside
        obtain ⟨d, r, hr⟩ :=
          exists_of_isPrefix_append hword (List.cons_ne_nil c rest) hside hstarts
        rw [← List.cons_append, hr, List.append_assoc, List.drop_left] at hafter
        refine hif ⟨hr ▸ List.prefix_append word _, hprev, ?_⟩
        rwa [hr, List.drop_left]
      rw [List.cons_append, splitAtWord, if_neg hif', ih hrest hside', Option.map_map]
      rfl

end

/-- That nothing in a text concerns a clause behind it in the same run: it does not end within a
word, and has neither `from` nor `import`. -/
structure Inert (s : List Char) : Prop where
  outside : isWordSide s.getLast? = false
  noFrom : ¬ HasWord "from".toList s
  noImport : ¬ HasWord "import".toList s

section

variable {s t : List Char}

theorem isWordSide_getLast?_append (hside : isWordSide s.getLast? = false) :
    isWordSide (s ++ t).getLast? = isWordSide t.getLast? := by
  rw [List.getLast?_append, isWordSide_or hside]

theorem beforeFrom?_append (hside : isWordSide s.getLast? = false)
    (hs : ¬ HasWord "from".toList s) :
    beforeFrom? (s ++ t) = (beforeFrom? t).map (s ++ ·) := by
  ext before
  rw [Option.map_eq_some_iff, beforeFrom?_eq_some]
  constructor
  · rintro ⟨hbefore, gap, hgap, heq⟩
    rw [List.append_assoc] at heq
    obtain ⟨u, rfl, rfl⟩ | ⟨u, rfl, hu⟩ := List.append_eq_append_iff.1 heq
    · rw [isWordSide_getLast?_append hside] at hbefore
      exact ⟨u, beforeFrom?_eq_some.2 ⟨hbefore, gap, hgap, (List.append_assoc _ _ _).symm⟩, rfl⟩
    · cases u with
      | nil =>
        refine ⟨[], beforeFrom?_eq_some.2 ⟨rfl, gap, hgap, hu.symm⟩, ?_⟩
        rw [List.append_nil, List.append_nil]
      | cons c u =>
        -- The `from` would be one of the first text.
        rw [List.getLast?_append_of_ne_nil _ (List.cons_ne_nil c u)] at hside
        obtain ⟨d, r, hr⟩ := exists_of_isPrefix_append isWord_of_mem_from (List.cons_ne_nil c u)
          hside (hu ▸ List.prefix_append _ gap)
        rw [hr, List.append_assoc] at hu
        have hd : isBlank d = true := hgap.2 d (List.append_cancel_left hu ▸ List.mem_cons_self)
        refine absurd ((hasWord_iff (by decide)).2 ⟨before, d :: r, ?_, hbefore, ?_⟩) hs
        · rw [hr, List.append_assoc]
        · exact isWord_of_isBlank hd
  · rintro ⟨before, hbefore, rfl⟩
    obtain ⟨hside', gap, hgap, rfl⟩ := beforeFrom?_eq_some.1 hbefore
    refine ⟨?_, gap, hgap, ?_⟩
    · rwa [isWordSide_getLast?_append hside]
    · simp only [List.append_assoc]

theorem statementIn?_append (hside : isWordSide s.getLast? = false)
    (hs : ¬ HasWord "import".toList s) :
    statementIn? (s ++ t) =
      (statementIn? t).map fun (lead, between) => (s ++ lead, between) := by
  have hnone : splitAtWord "import".toList none s = none := Option.not_isSome_iff_eq_none.1 hs
  rw [statementIn?, splitAtWord_append isWord_of_mem_import hnone (by rwa [Option.or_none]),
    Option.filter_map, statementIn?]
  rfl

end

end Text

end ImportSuffix
