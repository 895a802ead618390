import ImportSuffix.Proofs.Wording

/-!
# The wording of a clause with other line endings

A line may end with a line feed or with a carriage return and a line feed. `lineFeeds` leaves out
the carriage returns, and what the wording of a clause tells about a text it tells about the text
without them too: both characters are white space, so a word stands where it stood and a gap is a
gap. One thing is told by the number of characters, whether there is room for an import clause
between `import` and `from`. It makes a difference only if there is nothing but white space between
the two (`HasBareImport`).
-/

namespace ImportSuffix.Text

open Cursor (isWordSide)

/-- The text without the carriage returns that a line feed follows. -/
def lineFeeds : List Char → List Char
  | [] => []
  | c :: rest =>
    if c = '\r' ∧ rest.head? = some '\n' then lineFeeds rest else c :: lineFeeds rest

section

variable {s t w x y : List Char} {c : Char}

@[simp] theorem lineFeeds_nil : lineFeeds [] = [] := rfl

theorem lineFeeds_return (h : s.head? = some '\n') : lineFeeds ('\r' :: s) = lineFeeds s :=
  if_pos ⟨rfl, h⟩

theorem lineFeeds_cons (h : c = '\r' → s.head? ≠ some '\n') :
    lineFeeds (c :: s) = c :: lineFeeds s :=
  if_neg fun hdrop => h hdrop.1 hdrop.2

/-- What is kept in front of a text is kept in front of its beginning. -/
theorem lineFeeds_cons_of_append (h : c = '\r' → (s ++ t).head? ≠ some '\n') :
    lineFeeds (c :: s) = c :: lineFeeds s := by
  refine lineFeeds_cons fun hc => ?_
  cases s with
  | nil => exact (Option.some_ne_none '\n').symm
  | cons d s => exact h hc

/-- A character is left out or kept. -/
theorem lineFeeds_cons_cases (c : Char) (s : List Char) :
    (c = '\r' ∧ s.head? = some '\n' ∧ lineFeeds (c :: s) = lineFeeds s) ∨
      ((c = '\r' → s.head? ≠ some '\n') ∧ lineFeeds (c :: s) = c :: lineFeeds s) := by
  by_cases h : c = '\r' ∧ s.head? = some '\n'
  · exact .inl ⟨h.1, h.2, if_pos h⟩
  · exact .inr ⟨fun hc hs => h ⟨hc, hs⟩, if_neg h⟩

/-- Of several carriage returns before a line feed only the last one is left out. -/
example : lineFeeds "a\r\n\r\r\nb\r".toList = "a\n\r\nb\r".toList := by decide

theorem lineFeeds_sublist (s : List Char) : (lineFeeds s).Sublist s := by
  induction s with
  | nil => exact .slnil
  | cons c s ih =>
    obtain ⟨-, -, h⟩ | ⟨-, h⟩ := lineFeeds_cons_cases c s
    · rw [h]
      exact ih.cons c
    · rw [h]
      exact ih.cons_cons c

/-- Every other character is kept. -/
theorem mem_lineFeeds (hc : c ≠ '\r') : c ∈ lineFeeds s ↔ c ∈ s := by
  induction s with
  | nil => exact Iff.rfl
  | cons d s ih =>
    obtain ⟨rfl, -, h⟩ | ⟨-, h⟩ := lineFeeds_cons_cases d s
    · rw [h, ih, List.mem_cons, or_iff_right hc]
    · rw [h, List.mem_cons, List.mem_cons, ih]

theorem lineFeeds_eq_self (h : '\n' ∉ s) : lineFeeds s = s := by
  induction s with
  | nil => rfl
  | cons c s ih =>
    rw [List.mem_cons, not_or] at h
    rw [lineFeeds_cons fun _ hs => h.2 (List.mem_of_mem_head? hs), ih h.2]

theorem lineFeeds_eq_nil : lineFeeds s = [] ↔ s = [] := by
  constructor
  · intro h
    have hfeed : '\n' ∉ s := by
      rw [← mem_lineFeeds (by decide), h]
      exact List.not_mem_nil
    rwa [lineFeeds_eq_self hfeed] at h
  · rintro rfl
    rfl

/-- The last character is kept. -/
@[simp] theorem getLast?_lineFeeds (s : List Char) : (lineFeeds s).getLast? = s.getLast? := by
  induction s with
  | nil => rfl
  | cons c s ih =>
    obtain ⟨-, hs, h⟩ | ⟨-, h⟩ := lineFeeds_cons_cases c s
    · obtain ⟨r, rfl⟩ := List.head?_eq_some_iff.1 hs
      rw [h, ih, List.getLast?_cons_cons]
    · rw [h, List.getLast?_cons, List.getLast?_cons, ih]

/-- Texts in a row, unless a line ending is cut in two. -/
theorem lineFeeds_append (h : s.getLast? = some '\r' → t.head? ≠ some '\n') :
    lineFeeds (s ++ t) = lineFeeds s ++ lineFeeds t := by
  induction s with
  | nil => rfl
  | cons c s ih =>
    cases s with
    | nil =>
      rw [List.getLast?_singleton] at h
      have hc : c = '\r' → ([] ++ t).head? ≠ some '\n' := fun hc => h (congrArg some hc)
      rw [lineFeeds_cons_of_append hc]
      exact lineFeeds_cons hc
    | cons d s =>
      rw [List.getLast?_cons_cons] at h
      have htail := ih h
      obtain ⟨rfl, hs, hc⟩ | ⟨hs, hc⟩ := lineFeeds_cons_cases c (d :: s)
      · rw [hc, List.cons_append, lineFeeds_return (by exact hs), htail]
      · rw [hc, List.cons_append, lineFeeds_cons (by exact hs), htail, List.cons_append]

theorem lineFeeds_append_append (hw : w ≠ []) (hhead : w.head? ≠ some '\n')
    (hlast : w.getLast? ≠ some '\r') :
    lineFeeds (s ++ w ++ t) = lineFeeds s ++ lineFeeds w ++ lineFeeds t := by
  have hbehind : (s ++ w).getLast? = some '\r' → t.head? ≠ some '\n' := fun h =>
    absurd (List.getLast?_append_of_ne_nil s hw ▸ h) hlast
  rw [lineFeeds_append hbehind, lineFeeds_append fun _ => hhead]

/-- Where the text without the carriage returns can be cut, the text can. -/
theorem exists_of_lineFeeds_eq_append (h : lineFeeds s = x ++ y) :
    ∃ a b, s = a ++ b ∧ lineFeeds a = x ∧ lineFeeds b = y := by
  induction s generalizing x with
  | nil =>
    obtain ⟨rfl, rfl⟩ := List.append_eq_nil_iff.1 h.symm
    exact ⟨[], [], rfl, rfl, rfl⟩
  | cons c s ih =>
    obtain ⟨rfl, hs, hc⟩ | ⟨hs, hc⟩ := lineFeeds_cons_cases c s
    · -- The carriage return goes where the line feed goes.
      rw [hc] at h
      obtain ⟨a, b, rfl, rfl, rfl⟩ := ih h
      cases a with
      | nil => exact ⟨[], '\r' :: b, rfl, rfl, lineFeeds_return hs⟩
      | cons d a => exact ⟨'\r' :: d :: a, b, rfl, lineFeeds_return (by exact hs), rfl⟩
    · cases x with
      | nil => exact ⟨[], c :: s, rfl, rfl, h⟩
      | cons d x =>
        rw [hc, List.cons_append] at h
        obtain ⟨rfl, htail⟩ := List.cons.inj h
        obtain ⟨a, b, rfl, rfl, rfl⟩ := ih htail
        exact ⟨c :: a, b, rfl, lineFeeds_cons_of_append hs, rfl⟩

theorem isWordSide_head?_lineFeeds (s : List Char) :
    isWordSide (lineFeeds s).head? = isWordSide s.head? := by
  cases s with
  | nil => rfl
  | cons c s =>
    obtain ⟨rfl, hs, h⟩ | ⟨-, h⟩ := lineFeeds_cons_cases c s
    · obtain ⟨r, rfl⟩ := List.head?_eq_some_iff.1 hs
      have hfeed : '\n' = '\r' → r.head? ≠ some '\n' := fun hc => absurd hc (by decide)
      have hsides : isWordSide (some '\n') = isWordSide (some '\r') := by decide +kernel
      rw [h, lineFeeds_cons hfeed]
      exact hsides
    · rw [h]
      rfl

/-! ### White space and words -/

theorem forall_isBlank_lineFeeds :
    (∀ c ∈ lineFeeds s, isBlank c = true) ↔ ∀ c ∈ s, isBlank c = true := by
  constructor
  · intro h c hc
    by_cases hreturn : c = '\r'
    · subst hreturn
      decide
    · exact h c ((mem_lineFeeds hreturn).2 hc)
  · exact fun h c hc => h c ((lineFeeds_sublist s).subset hc)

theorem isGap_lineFeeds : IsGap (lineFeeds s) ↔ IsGap s := by
  rw [IsGap, IsGap, Ne, lineFeeds_eq_nil, forall_isBlank_lineFeeds]

/-- No word goes on where white space begins. -/
theorem IsGap.isWordSide_head? (h : IsGap s) : isWordSide s.head? = false := by
  obtain ⟨c, t, rfl⟩ := List.exists_cons_of_ne_nil h.1
  exact isWord_of_isBlank (h.2 c List.mem_cons_self)

/-- That a text holds no white space. -/
def Solid (w : List Char) : Prop := ∀ c ∈ w, isBlank c = false

instance (w : List Char) : Decidable (Solid w) :=
  decidable_of_iff (w.all fun c => !isBlank c) (by simp [Solid])

theorem Solid.lineFeeds_eq (h : Solid w) : lineFeeds w = w :=
  lineFeeds_eq_self fun hfeed => absurd (h '\n' hfeed) (by decide)

/-- A line ending is not cut in two in front of what holds no white space, nor behind it. -/
theorem Solid.lineFeeds_append (h : Solid w) (hw : w ≠ []) (s t : List Char) :
    lineFeeds (s ++ w ++ t) = lineFeeds s ++ w ++ lineFeeds t := by
  have hhead : w.head? ≠ some '\n' := fun hmem =>
    absurd (h '\n' (List.mem_of_mem_head? hmem)) (by decide)
  have hlast : w.getLast? ≠ some '\r' := fun hmem =>
    absurd (h '\r' (List.mem_of_getLast? hmem)) (by decide)
  rw [lineFeeds_append_append hw hhead hlast, h.lineFeeds_eq]

theorem lineFeeds_append_cons (hc : isBlank c = false) :
    lineFeeds (s ++ c :: t) = lineFeeds s ++ c :: lineFeeds t := by
  have hsolid : Solid [c] := fun d hd => List.mem_singleton.1 hd ▸ hc
  have h := hsolid.lineFeeds_append (List.cons_ne_nil c []) s t
  simpa using h

theorem Solid.exists_of_lineFeeds_eq (h : Solid w) (heq : lineFeeds s = x ++ w ++ y) :
    ∃ a b, s = a ++ w ++ b ∧ lineFeeds a = x ∧ lineFeeds b = y := by
  obtain ⟨front, b, rfl, hfront, rfl⟩ := exists_of_lineFeeds_eq_append heq
  obtain ⟨a, v, rfl, rfl, hv⟩ := exists_of_lineFeeds_eq_append hfront
  have hfeed : '\n' ∉ v := by
    rw [← mem_lineFeeds (by decide), hv]
    exact fun hmem => absurd (h '\n' hmem) (by decide)
  rw [lineFeeds_eq_self hfeed] at hv
  exact ⟨a, b, by rw [hv], rfl, rfl⟩

theorem solid_from : Solid "from".toList := by decide

theorem solid_import : Solid "import".toList := by decide

/-! ### The parts of a clause -/

theorem beforeFrom?_lineFeeds (s : List Char) :
    beforeFrom? (lineFeeds s) = (beforeFrom? s).map lineFeeds := by
  ext before
  rw [Option.map_eq_some_iff, beforeFrom?_eq_some]
  constructor
  · rintro ⟨hside, gap, hgap, heq⟩
    obtain ⟨a, b, rfl, rfl, rfl⟩ := solid_from.exists_of_lineFeeds_eq heq
    rw [getLast?_lineFeeds] at hside
    exact ⟨a, beforeFrom?_eq_some.2 ⟨hside, b, isGap_lineFeeds.1 hgap, rfl⟩, rfl⟩
  · rintro ⟨before, hbefore, rfl⟩
    obtain ⟨hside, gap, hgap, rfl⟩ := beforeFrom?_eq_some.1 hbefore
    rw [getLast?_lineFeeds]
    exact ⟨hside, lineFeeds gap, isGap_lineFeeds.2 hgap,
      solid_from.lineFeeds_append (by decide) before gap⟩

theorem beforeSuffix?_lineFeeds (s : List Char) :
    beforeSuffix? (lineFeeds s) = (beforeSuffix? s).map lineFeeds := by
  have hsolid : Solid ".js".toList := by decide
  ext stem
  rw [Option.map_eq_some_iff, beforeSuffix?_eq_some]
  constructor
  · intro heq
    rw [← List.append_nil (stem ++ _)] at heq
    obtain ⟨a, b, rfl, rfl, hb⟩ := hsolid.exists_of_lineFeeds_eq heq
    obtain rfl := lineFeeds_eq_nil.1 hb
    exact ⟨a, beforeSuffix?_eq_some.2 (List.append_nil _), rfl⟩
  · rintro ⟨stem, hstem, rfl⟩
    rw [beforeSuffix?_eq_some.1 hstem, ← List.append_nil (stem ++ _),
      hsolid.lineFeeds_append (by decide), lineFeeds_nil, List.append_nil]

/-! ### Where a word stands -/

/-- No word begins with white space. -/
theorem splitAtWord_blank {word : List Char} {prev : Option Char} (hword : Solid word)
    (hne : word ≠ []) (hc : isBlank c = true) : splitAtWord word prev (c :: s) =
      (splitAtWord word (some c) s).map fun (before, after) => (c :: before, after) := by
  refine if_neg fun h => ?_
  obtain ⟨d, u, rfl⟩ := List.exists_cons_of_ne_nil hne
  obtain ⟨rfl, -⟩ := List.cons_prefix_cons.1 h.1
  rw [hword d List.mem_cons_self] at hc
  cases hc

/-- Whether a text begins with a word of its own, and what stands behind it. -/
theorem Solid.isPrefix_lineFeeds (hw : Solid w) (hne : w ≠ []) :
    (w <+: lineFeeds s ∧ isWordSide ((lineFeeds s).drop w.length).head? = false) ↔
      w <+: s ∧ isWordSide (s.drop w.length).head? = false := by
  constructor
  · rintro ⟨⟨y, hy⟩, hside⟩
    obtain ⟨a, b, rfl, ha, rfl⟩ := hw.exists_of_lineFeeds_eq (x := []) hy.symm
    obtain rfl := lineFeeds_eq_nil.1 ha
    rw [← hy, List.drop_left, isWordSide_head?_lineFeeds] at hside
    rw [List.nil_append, List.drop_left]
    exact ⟨List.prefix_append w b, hside⟩
  · rintro ⟨⟨b, rfl⟩, hside⟩
    have hw' : lineFeeds (w ++ b) = w ++ lineFeeds b := hw.lineFeeds_append hne [] b
    rw [List.drop_left] at hside
    rw [hw', List.drop_left, isWordSide_head?_lineFeeds]
    exact ⟨List.prefix_append w _, hside⟩

theorem splitAtWord_lineFeeds {word : List Char} (hword : Solid word) (hne : word ≠ [])
    (prev : Option Char) (s : List Char) : splitAtWord word prev (lineFeeds s) =
      (splitAtWord word prev s).map (Prod.map lineFeeds lineFeeds) := by
  induction s generalizing prev with
  | nil => rfl
  | cons c s ih =>
    obtain ⟨rfl, hs, h⟩ | ⟨hs, h⟩ := lineFeeds_cons_cases c s
    · -- Neither the carriage return nor the line feed is part of a word.
      obtain ⟨r, rfl⟩ := List.head?_eq_some_iff.1 hs
      rw [h, ih, splitAtWord_blank hword hne (by decide), splitAtWord_blank hword hne (by decide),
        splitAtWord_blank hword hne (by decide), Option.map_map, Option.map_map, Option.map_map]
      refine congrArg (Option.map · _) (funext fun p => ?_)
      exact Prod.ext (lineFeeds_return rfl).symm rfl
    · have hhere := hword.isPrefix_lineFeeds (s := c :: s) hne
      rw [h] at hhere ⊢
      rw [splitAtWord, splitAtWord]
      split
      · next hif =>
        obtain ⟨hstarts, hside⟩ := hhere.1 ⟨hif.1, hif.2.2⟩
        rw [if_pos ⟨hstarts, hif.2.1, hside⟩]
        obtain ⟨b, hb⟩ := hstarts
        have hfeeds : lineFeeds (word ++ b) = word ++ lineFeeds b :=
          hword.lineFeeds_append hne [] b
        rw [← h, ← hb, hfeeds, List.drop_left, List.drop_left]
        rfl
      · next hif =>
        have hif' : ¬ (word <+: c :: s ∧ isWordSide prev = false ∧
            isWordSide ((c :: s).drop word.length).head? = false) := by
          rintro ⟨hstarts, hprev, hside⟩
          obtain ⟨hstarts, hside⟩ := hhere.2 ⟨hstarts, hside⟩
          exact hif ⟨hstarts, hprev, hside⟩
        rw [if_neg hif', ih, Option.map_map, Option.map_map]
        refine Option.map_congr fun p hp => Prod.ext ?_ rfl
        obtain ⟨before, after⟩ := p
        obtain ⟨rfl, -, -⟩ := of_splitAtWord hp
        rw [List.append_assoc] at hs
        exact (lineFeeds_cons_of_append hs).symm

/-! ### The import clause -/

/-- If there is anything but white space between `import` and `from`, there is room for an import
clause if there is white space after it. -/
theorem holdsClause_of_not_blank (h : ¬ ∀ c ∈ s, isBlank c = true) :
    holdsClause s = s.getLast?.any isBlank := by
  rw [holdsClause, Bool.and_eq_right_iff_imp, decide_eq_true_eq, getLast?_any]
  rintro ⟨t, c, rfl, hc⟩
  have hne : t ≠ [] := by
    rintro rfl
    exact h fun d hd => List.mem_singleton.1 hd ▸ hc
  rw [List.length_append, List.length_singleton]
  exact Nat.succ_le_succ (List.length_pos_iff.2 hne)

theorem holdsClause_lineFeeds (h : ¬ ∀ c ∈ s, isBlank c = true) :
    holdsClause (lineFeeds s) = holdsClause s := by
  have h' : ¬ ∀ c ∈ lineFeeds s, isBlank c = true := by rwa [forall_isBlank_lineFeeds]
  rw [holdsClause_of_not_blank h, holdsClause_of_not_blank h', getLast?_lineFeeds]

theorem dropWhile_lineFeeds (s : List Char) :
    (lineFeeds s).dropWhile isBlank = lineFeeds (s.dropWhile isBlank) := by
  induction s with
  | nil => rfl
  | cons c s ih =>
    obtain ⟨rfl, -, h⟩ | ⟨-, h⟩ := lineFeeds_cons_cases c s
    · rw [h, ih, List.dropWhile_cons_of_pos (by decide)]
    · by_cases hc : isBlank c = true
      · rw [h, List.dropWhile_cons_of_pos hc, List.dropWhile_cons_of_pos hc, ih]
      · rw [h, List.dropWhile_cons_of_neg hc, List.dropWhile_cons_of_neg hc, h]

theorem rdropWhile_lineFeeds (s : List Char) :
    (lineFeeds s).rdropWhile isBlank = lineFeeds (s.rdropWhile isBlank) := by
  have hs := List.rdropWhile_append_rtakeWhile (p := isBlank) (l := s)
  have hlast : ∀ c, (s.rdropWhile isBlank).getLast? = some c → ¬ isBlank c = true := by
    intro c hc
    obtain ⟨hne, rfl⟩ := List.mem_getLast?_eq_getLast hc
    exact List.rdropWhile_last_not isBlank s hne
  have hcut : (s.rdropWhile isBlank).getLast? = some '\r' →
      (s.rtakeWhile isBlank).head? ≠ some '\n' := fun hreturn =>
    absurd (by decide) (hlast '\r' hreturn)
  have hblank : ∀ c ∈ lineFeeds (s.rtakeWhile isBlank), isBlank c = true :=
    forall_isBlank_lineFeeds.2 fun c => List.mem_rtakeWhile_imp
  conv_lhs => rw [← hs]
  rw [lineFeeds_append hcut, rdropWhile_append hblank, List.rdropWhile_eq_self_iff]
  intro hne
  refine hlast _ ?_
  rw [← getLast?_lineFeeds, List.getLast?_eq_some_getLast hne]

/-- If there is anything but white space between `import` and `from`, the import clause is told by
where that begins and ends. -/
theorem clauseIn_lineFeeds (h : ¬ ∀ c ∈ s, isBlank c = true) :
    clauseIn (lineFeeds s) = lineFeeds (clauseIn s) := by
  have h' : ¬ ∀ c ∈ lineFeeds s, isBlank c = true := by rwa [forall_isBlank_lineFeeds]
  rw [clauseIn, clauseIn, if_neg (by rwa [List.all_eq_true]), if_neg (by rwa [List.all_eq_true]),
    dropWhile_lineFeeds, rdropWhile_lineFeeds]

end

/-! ### Bare imports -/

/-- That a text begins with `import`, white space and a word `from`. -/
def StartsBareImport (s : List Char) : Prop :=
  ∃ gap back, s = "import".toList ++ gap ++ "from".toList ++ back ∧ IsGap gap ∧
    isWordSide back.head? = false

theorem startsBareImport_iff {s : List Char} : StartsBareImport s ↔
    "import".toList <+: s ∧ IsGap ((s.drop 6).takeWhile isBlank) ∧
      "from".toList <+: (s.drop 6).dropWhile isBlank ∧
      isWordSide (((s.drop 6).dropWhile isBlank).drop 4).head? = false := by
  constructor
  · rintro ⟨gap, back, rfl, hgap, hback⟩
    have hfrom : ¬ isBlank 'f' = true := by decide
    have htake : (gap ++ ("from".toList ++ back)).takeWhile isBlank = gap := by
      rw [List.takeWhile_append_of_pos hgap.2]
      exact List.append_nil gap
    have hdrop : (gap ++ ("from".toList ++ back)).dropWhile isBlank = "from".toList ++ back := by
      rw [List.dropWhile_append_of_pos hgap.2]
      exact List.dropWhile_cons_of_neg hfrom
    have hdrop6 : ∀ t, ("import".toList ++ t).drop 6 = t := fun t => rfl
    rw [List.append_assoc, List.append_assoc, hdrop6, htake, hdrop]
    exact ⟨List.prefix_append _ _, hgap, List.prefix_append _ _, hback⟩
  · rintro ⟨⟨t, rfl⟩, hgap, ⟨back, hback⟩, hside⟩
    rw [← hback] at hside
    refine ⟨_, back, ?_, hgap, hside⟩
    rw [List.append_assoc, hback, List.append_assoc, List.takeWhile_append_dropWhile]
    rfl

instance (s : List Char) : Decidable (StartsBareImport s) :=
  decidable_of_iff _ startsBareImport_iff.symm

/-- That a text has a word `import` with nothing but white space between it and a word `from`. -/
def HasBareImport (s : List Char) : Prop :=
  ∃ front rest, s = front ++ rest ∧ isWordSide front.getLast? = false ∧ StartsBareImport rest

theorem hasBareImport_iff {s : List Char} : HasBareImport s ↔
    ∃ k ∈ List.range (s.length + 1),
      isWordSide (s.take k).getLast? = false ∧ StartsBareImport (s.drop k) := by
  constructor
  · rintro ⟨front, rest, rfl, hfront, hrest⟩
    refine ⟨front.length, ?_, ?_, ?_⟩
    · rw [List.mem_range, List.length_append]
      omega
    · rwa [List.take_left]
    · rwa [List.drop_left]
  · rintro ⟨k, -, hfront, hrest⟩
    exact ⟨s.take k, s.drop k, (List.take_append_drop k s).symm, hfront, hrest⟩

instance (s : List Char) : Decidable (HasBareImport s) :=
  decidable_of_iff _ hasBareImport_iff.symm

section

variable {s t w front gap back lead between : List Char}

theorem hasBareImport_of_eq (h : s = front ++ "import".toList ++ gap ++ "from".toList ++ back)
    (hgap : IsGap gap) (hfront : isWordSide front.getLast? = false)
    (hback : isWordSide back.head? = false) : HasBareImport s := by
  refine ⟨front, _, ?_, hfront, gap, back, rfl, hgap, hback⟩
  simp only [h, List.append_assoc]

/-- A bare import of a part of a text, cut out between words, is one of the text. -/
theorem HasBareImport.append (h : HasBareImport s) (hw : isWordSide w.getLast? = false)
    (ht : isWordSide t.head? = false) : HasBareImport (w ++ s ++ t) := by
  obtain ⟨front, rest, rfl, hfront, gap, back, rfl, hgap, hback⟩ := h
  have hfront' : isWordSide (w ++ front).getLast? = false := by
    rwa [isWordSide_getLast?_append hw]
  have hback' : isWordSide (back ++ t).head? = false := by
    rwa [List.head?_append, Cursor.isWordSide_or ht]
  refine hasBareImport_of_eq ?_ hgap hfront' hback'
  simp only [List.append_assoc]

/-- White space at the end has no part in a bare import. -/
theorem HasBareImport.of_append_blank (h : HasBareImport (s ++ w))
    (hw : ∀ c ∈ w, isBlank c = true) : HasBareImport s := by
  obtain ⟨front, rest, heq, hfront, gap, back, rfl, hgap, hback⟩ := h
  rw [← List.append_assoc] at heq
  obtain ⟨u, hu, rfl⟩ | ⟨u, rfl, rfl⟩ := List.append_eq_append_iff.1 heq
  · -- The white space does not reach into the word.
    cases u using List.reverseRecOn with
    | nil =>
      have hs : s = front ++ "import".toList ++ gap ++ "from".toList ++ [] := by
        rw [← List.append_nil s, ← hu]
        simp only [List.append_assoc, List.append_nil]
      exact hasBareImport_of_eq hs hgap hfront rfl
    | append_singleton u c =>
      have hlast := congrArg List.getLast? hu
      rw [← List.append_assoc, ← List.append_assoc, ← List.append_assoc, List.getLast?_concat,
        List.getLast?_append_of_ne_nil _ (by decide)] at hlast
      have hc : isBlank c = true :=
        hw c (List.mem_append_left back (List.mem_append_right u List.mem_cons_self))
      rw [← Option.some.inj hlast] at hc
      exact absurd hc (by decide)
  · have hu : isWordSide u.head? = false := by
      cases u with
      | nil => rfl
      | cons c u => exact hback
    refine hasBareImport_of_eq ?_ hgap hfront hu
    simp only [List.append_assoc]

/-- With white space only behind the word `import`, what stands before a `from` makes a bare
import. -/
theorem hasBareImport_of_blank (hlead : isWordSide lead.getLast? = false)
    (hside : isWordSide (lead ++ "import".toList ++ between).getLast? = false)
    (hblank : ∀ c ∈ between, isBlank c = true) (hback : isWordSide back.head? = false) :
    HasBareImport (lead ++ "import".toList ++ between ++ "from".toList ++ back) := by
  refine hasBareImport_of_eq rfl ⟨?_, hblank⟩ hlead hback
  rintro rfl
  rw [List.append_nil, List.getLast?_append_of_ne_nil _ (by decide)] at hside
  exact absurd hside (by decide +kernel)

/-- In front of a `from` the same import statement ends, unless the import is bare. -/
theorem statementIn?_lineFeeds (hside : isWordSide s.getLast? = false)
    (hback : isWordSide back.head? = false) (h : ¬ HasBareImport (s ++ "from".toList ++ back)) :
    statementIn? (lineFeeds s) = (statementIn? s).map (Prod.map lineFeeds lineFeeds) := by
  rw [statementIn?, statementIn?, splitAtWord_lineFeeds solid_import (by decide)]
  cases hsplit : splitAtWord "import".toList none s with
  | none => rfl
  | some p =>
    obtain ⟨lead, between⟩ := p
    obtain ⟨rfl, hlead, -⟩ := of_splitAtWord hsplit
    rw [Option.or_none] at hlead
    have hroom : holdsClause (lineFeeds between) = holdsClause between :=
      holdsClause_lineFeeds fun hblank => h (hasBareImport_of_blank hlead hside hblank hback)
    simp only [Option.map_some, Prod.map_apply, Option.filter_some, hroom]
    split <;> rfl

end

end ImportSuffix.Text
