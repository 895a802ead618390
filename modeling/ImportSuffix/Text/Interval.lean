/-!
# Character properties as sorted intervals

A property of characters that a standard fixes by enumeration is a table: closed intervals of
code points, in increasing order. Looking a character up walks the table and stops at the first
interval that begins past it, which is sound because no later interval can begin earlier. The
modules beside this one hold one table each.

Intervals in any order are put into this form by `ofList`, which joins those that overlap or touch,
so that two sets of code points are the same exactly if their intervals are.
-/

namespace ImportSuffix.Text

/-- Closed intervals of code points, each as its first and last member. -/
abbrev Intervals := List (Nat × Nat)

/-- No character lies past the last code point. -/
theorem toNat_le (c : Char) : c.toNat ≤ 0x10FFFF := by
  have := c.valid
  simp only [UInt32.isValidChar, Nat.isValidChar] at this
  simp only [Char.toNat]
  omega

theorem toNat_ofNat {n : Nat} (h : n.isValidChar) : (Char.ofNat n).toNat = n := by
  rw [Char.ofNat, dif_pos h]
  rfl

namespace Intervals

/-- Whether a code point lies in one of the intervals. The intervals are taken to be in
increasing order: the walk gives up at the first one that begins past the code point. -/
def contains : Intervals → Nat → Bool
  | [], _ => false
  | (first, last) :: rest, n =>
    if n < first then false else n ≤ last || contains rest n

/-- Every interval is nonempty and begins past the end of the one before it. -/
def Ascending (table : Intervals) : Prop :=
  (∀ entry ∈ table, entry.1 ≤ entry.2) ∧ table.Pairwise fun a b => a.2 < b.1

/-- Checks neighbours only, which is enough for intervals that are not empty. -/
def ascends : Intervals → Bool
  | [] => true
  | [entry] => entry.1 ≤ entry.2
  | entry :: other :: rest =>
    entry.1 ≤ entry.2 && entry.2 < other.1 && ascends (other :: rest)

theorem ascending_of_ascends {table : Intervals} (h : table.ascends = true) :
    table.Ascending := by
  induction table with
  | nil => exact ⟨fun _ he => (nomatch he), List.Pairwise.nil⟩
  | cons entry rest ih =>
    cases rest with
    | nil =>
      refine ⟨fun e he => ?_, List.pairwise_singleton _ _⟩
      rw [List.mem_singleton.1 he]
      simpa [ascends] using h
    | cons other rest =>
      simp only [ascends, Bool.and_eq_true, decide_eq_true_eq] at h
      obtain ⟨⟨hle, hlt⟩, hrest⟩ := h
      have hasc := ih hrest
      refine ⟨fun e he => ?_, List.pairwise_cons.2 ⟨fun e he => ?_, hasc.2⟩⟩
      · rcases List.mem_cons.1 he with rfl | he
        · exact hle
        · exact hasc.1 e he
      · rcases List.mem_cons.1 he with rfl | he
        · exact hlt
        · have h₁ := (List.pairwise_cons.1 hasc.2).1 e he
          have h₂ := hasc.1 other List.mem_cons_self
          omega

@[simp] theorem contains_nil (n : Nat) : contains [] n = false := rfl

/-- On an ascending table the early stop loses nothing: membership is membership in one of the
intervals. -/
theorem contains_iff {table : Intervals} (h : Ascending table) (n : Nat) :
    contains table n = true ↔ ∃ entry ∈ table, entry.1 ≤ n ∧ n ≤ entry.2 := by
  induction table with
  | nil => simp
  | cons entry rest ih =>
    obtain ⟨first, last⟩ := entry
    obtain ⟨hne, hpw⟩ := h
    rw [List.pairwise_cons] at hpw
    have hrest : Ascending rest :=
      ⟨fun e he => hne e (List.mem_cons_of_mem _ he), hpw.2⟩
    have hfl : first ≤ last := hne (first, last) List.mem_cons_self
    unfold contains
    by_cases hlt : n < first
    · rw [if_pos hlt]
      constructor
      · intro hc; cases hc
      · rintro ⟨e, he, h1, h2⟩
        rcases List.mem_cons.1 he with rfl | he
        · exact absurd h1 (Nat.not_le.2 hlt)
        · have h3 : last < e.1 := hpw.1 e he
          omega
    · rw [if_neg hlt]
      simp only [Bool.or_eq_true, decide_eq_true_eq, ih hrest]
      constructor
      · rintro (h1 | ⟨e, he, h1⟩)
        · exact ⟨(first, last), List.mem_cons_self, by omega, h1⟩
        · exact ⟨e, List.mem_cons_of_mem _ he, h1⟩
      · rintro ⟨e, he, h1, h2⟩
        rcases List.mem_cons.1 he with rfl | he
        · exact Or.inl h2
        · exact Or.inr ⟨e, he, h1, h2⟩

/-! ### Union and complement -/

/-- The first interval, joined with those after it that overlap or touch it. The intervals are taken
to be ordered by their beginnings. -/
def joinFrom (first last : Nat) : Intervals → Intervals
  | [] => [(first, last)]
  | (nextFirst, nextLast) :: rest =>
    if nextFirst ≤ last + 1 then joinFrom first (max last nextLast) rest
    else (first, last) :: joinFrom nextFirst nextLast rest

/-- The code points of some intervals, as intervals in increasing order that do not touch. -/
def ofList (entries : List (Nat × Nat)) : Intervals :=
  match entries.mergeSort fun a b => a.1 ≤ b.1 with
  | [] => []
  | (first, last) :: rest => joinFrom first last rest

/-- The code points from `next` to the last of all that lie in none of the intervals. -/
def gapsFrom (next : Nat) : Intervals → Intervals
  | [] => if next ≤ 0x10FFFF then [(next, 0x10FFFF)] else []
  | (first, last) :: rest =>
    if next < first then (next, first - 1) :: gapsFrom (last + 1) rest
    else gapsFrom (last + 1) rest

/-- The code points that lie in none of the intervals. -/
def complement (table : Intervals) : Intervals := gapsFrom 0 table

theorem contains_joinFrom {first last : Nat} {rest : Intervals}
    (hsorted : rest.Pairwise fun a b => a.1 ≤ b.1) (hfirst : ∀ e ∈ rest, first ≤ e.1) (n : Nat) :
    contains (joinFrom first last rest) n = true ↔
      ∃ e ∈ (first, last) :: rest, e.1 ≤ n ∧ n ≤ e.2 := by
  induction rest generalizing first last with
  | nil => simp [joinFrom, contains]
  | cons entry rest ih =>
    obtain ⟨f, l⟩ := entry
    have hf : first ≤ f := hfirst (f, l) List.mem_cons_self
    obtain ⟨hrest, hsorted⟩ := List.pairwise_cons.1 hsorted
    unfold joinFrom
    split
    · rw [ih hsorted fun e he => hfirst e (List.mem_cons_of_mem _ he)]
      simp only [List.mem_cons, exists_eq_or_imp]
      rw [← or_assoc]
      exact or_congr_left (by omega)
    · simp only [contains, List.mem_cons, exists_eq_or_imp]
      split
      · next hn =>
        have hpast : ¬ ∃ e ∈ rest, e.1 ≤ n ∧ n ≤ e.2 := fun ⟨e, he, h, _⟩ => by
          have := hrest e he
          omega
        simp only [hpast, or_false, Bool.false_eq_true, false_iff]
        omega
      · simp only [Bool.or_eq_true, decide_eq_true_eq, ih hsorted hrest, List.mem_cons,
          exists_eq_or_imp]
        exact or_congr_left (by omega)

theorem pairwise_mergeSort_first (entries : List (Nat × Nat)) :
    (entries.mergeSort fun a b => a.1 ≤ b.1).Pairwise fun a b => a.1 ≤ b.1 := by
  refine (List.pairwise_mergeSort ?_ ?_ entries).imp fun h => of_decide_eq_true h
  · simp only [decide_eq_true_eq]
    omega
  · simp only [Bool.or_eq_true, decide_eq_true_eq]
    omega

/-- Putting intervals in order and joining them keeps the code points that they cover. -/
theorem contains_ofList (entries : List (Nat × Nat)) (n : Nat) :
    contains (ofList entries) n = true ↔ ∃ e ∈ entries, e.1 ≤ n ∧ n ≤ e.2 := by
  have hmem : ∀ e, e ∈ entries.mergeSort (fun a b => a.1 ≤ b.1) ↔ e ∈ entries := fun e =>
    List.mem_mergeSort
  have hsorted := pairwise_mergeSort_first entries
  unfold ofList
  simp only [← hmem]
  generalize entries.mergeSort (fun a b => decide (a.1 ≤ b.1)) = sorted at hsorted
  match sorted with
  | [] => simp
  | (first, last) :: rest =>
    obtain ⟨hrest, hsorted⟩ := List.pairwise_cons.1 hsorted
    exact contains_joinFrom hsorted hrest n

theorem ascending_joinFrom {first last : Nat} {rest : Intervals} (hle : first ≤ last)
    (hne : ∀ e ∈ rest, e.1 ≤ e.2) (hsorted : rest.Pairwise fun a b => a.1 ≤ b.1)
    (hfirst : ∀ e ∈ rest, first ≤ e.1) :
    Ascending (joinFrom first last rest) ∧ ∀ e ∈ joinFrom first last rest, first ≤ e.1 := by
  induction rest generalizing first last with
  | nil => simp [joinFrom, Ascending, hle]
  | cons entry rest ih =>
    obtain ⟨f, l⟩ := entry
    have hf : first ≤ f := hfirst (f, l) List.mem_cons_self
    have hfl : f ≤ l := hne (f, l) List.mem_cons_self
    have hne : ∀ e ∈ rest, e.1 ≤ e.2 := fun e he => hne e (List.mem_cons_of_mem _ he)
    obtain ⟨hrest, hsorted⟩ := List.pairwise_cons.1 hsorted
    unfold joinFrom
    split
    · exact ih (by omega) hne hsorted fun e he => hfirst e (List.mem_cons_of_mem _ he)
    · next hgap =>
      obtain ⟨⟨hne', hpw⟩, hpast⟩ := ih hfl hne hsorted hrest
      refine ⟨⟨?_, List.pairwise_cons.2 ⟨fun e he => ?_, hpw⟩⟩, ?_⟩
      · exact List.forall_mem_cons.2 ⟨hle, hne'⟩
      · have := hpast e he
        omega
      · exact List.forall_mem_cons.2 ⟨Nat.le_refl _, fun e he => Nat.le_trans hf (hpast e he)⟩

theorem ascending_ofList {entries : List (Nat × Nat)} (hne : ∀ e ∈ entries, e.1 ≤ e.2) :
    Ascending (ofList entries) := by
  have hne : ∀ e ∈ entries.mergeSort (fun a b => a.1 ≤ b.1), e.1 ≤ e.2 := fun e he =>
    hne e (List.mem_mergeSort.1 he)
  have hsorted := pairwise_mergeSort_first entries
  unfold ofList
  generalize entries.mergeSort (fun a b => decide (a.1 ≤ b.1)) = sorted at hne hsorted
  match sorted with
  | [] => exact ⟨fun _ he => (nomatch he), List.Pairwise.nil⟩
  | (first, last) :: rest =>
    obtain ⟨hrest, hsorted⟩ := List.pairwise_cons.1 hsorted
    obtain ⟨hle, hne⟩ := List.forall_mem_cons.1 hne
    exact (ascending_joinFrom hle hne hsorted hrest).1

theorem ascending_gapsFrom {next : Nat} {table : Intervals} (h : Ascending table)
    (hnext : ∀ e ∈ table, next ≤ e.1) :
    Ascending (gapsFrom next table) ∧ ∀ e ∈ gapsFrom next table, next ≤ e.1 := by
  induction table generalizing next with
  | nil =>
    unfold gapsFrom
    split <;> simp [Ascending]
    assumption
  | cons entry rest ih =>
    obtain ⟨first, last⟩ := entry
    obtain ⟨hne, hpw⟩ := h
    obtain ⟨hlt, hpw⟩ := List.pairwise_cons.1 hpw
    have hle : first ≤ last := hne (first, last) List.mem_cons_self
    have hfirst : next ≤ first := hnext (first, last) List.mem_cons_self
    obtain ⟨⟨hne', hpw'⟩, hpast⟩ :=
      ih ⟨fun e he => hne e (List.mem_cons_of_mem _ he), hpw⟩ fun e he => hlt e he
    have hfrom : ∀ e ∈ gapsFrom (last + 1) rest, next ≤ e.1 := fun e he => by
      have := hpast e he
      omega
    unfold gapsFrom
    split
    · refine ⟨⟨?_, List.pairwise_cons.2 ⟨fun e he => ?_, hpw'⟩⟩, ?_⟩
      · refine List.forall_mem_cons.2 ⟨?_, hne'⟩
        simp only
        omega
      · have := hpast e he
        simp only
        omega
      · exact List.forall_mem_cons.2 ⟨Nat.le_refl _, hfrom⟩
    · exact ⟨⟨hne', hpw'⟩, hfrom⟩

theorem ascending_complement {table : Intervals} (h : Ascending table) :
    Ascending (complement table) :=
  (ascending_gapsFrom h fun _ _ => Nat.zero_le _).1

theorem contains_gapsFrom {next : Nat} {table : Intervals} (h : Ascending table)
    (hnext : ∀ e ∈ table, next ≤ e.1) {n : Nat} (hn : n ≤ 0x10FFFF) :
    contains (gapsFrom next table) n = true ↔ next ≤ n ∧ contains table n = false := by
  induction table generalizing next with
  | nil =>
    unfold gapsFrom
    split <;> simp [contains] <;> omega
  | cons entry rest ih =>
    obtain ⟨first, last⟩ := entry
    obtain ⟨hne, hpw⟩ := h
    obtain ⟨hlt, hpw⟩ := List.pairwise_cons.1 hpw
    have hle : first ≤ last := hne (first, last) List.mem_cons_self
    have hfirst : next ≤ first := hnext (first, last) List.mem_cons_self
    have hrest : contains (gapsFrom (last + 1) rest) n = true ↔
        last + 1 ≤ n ∧ contains rest n = false :=
      ih ⟨fun e he => hne e (List.mem_cons_of_mem _ he), hpw⟩ fun e he => hlt e he
    unfold gapsFrom
    simp only [contains]
    by_cases hn₁ : n < first
    · by_cases hn₂ : next < first
      · simp only [if_pos hn₁, if_pos hn₂, contains]
        split <;> simp <;> omega
      · have : ¬ last + 1 ≤ n := by omega
        simp only [if_pos hn₁, if_neg hn₂, hrest, this, false_and, and_true, false_iff]
        omega
    · have hnext : next ≤ n := by omega
      have hlast : (decide (n ≤ last) || contains rest n) = false ↔
          last + 1 ≤ n ∧ contains rest n = false := by
        rw [Bool.or_eq_false_iff, decide_eq_false_iff_not, Nat.not_le]
        rfl
      rw [if_neg hn₁, hlast]
      split
      · have : ¬ n ≤ first - 1 := by omega
        rw [contains, if_neg (by omega), decide_eq_false this, Bool.false_or, hrest]
        simp only [hnext, true_and]
      · rw [hrest]
        simp only [hnext, true_and]

/-- The complement of a table holds exactly the other code points. -/
theorem contains_complement {table : Intervals} (h : Ascending table) {n : Nat}
    (hn : n ≤ 0x10FFFF) : contains (complement table) n = !contains table n := by
  rw [Bool.eq_iff_iff, complement, contains_gapsFrom h (fun _ _ => Nat.zero_le _) hn]
  simp

end Intervals

end ImportSuffix.Text
