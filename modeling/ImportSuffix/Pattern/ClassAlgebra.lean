import ImportSuffix.Pattern.Extent

/-!
# Combining classes

The union of two classes has the items of both, if neither is negated; the items of a negated class
are put as items that are not (`CharClass.members`) by way of its extent. All other combinations
come from the union and the complement. Each holds the characters that its name says
(`contains_union`, `contains_inter`, `contains_diff`, `contains_symmDiff`).
-/

namespace ImportSuffix.CharClass

/-- Whether the ends of every range are in order. -/
def IsOrdered (s : CharClass) : Prop := ∀ item ∈ s.items, item.IsOrdered

/-- Items that together hold the characters of a class. -/
def members (s : CharClass) : List ClassItem :=
  if s.negated then (ofExtent s.extent).items else s.items

/-- The characters that are not in a class. -/
def complement (s : CharClass) : CharClass := { s with negated := !s.negated }

/-- The characters in either of two classes. -/
def union (s t : CharClass) : CharClass := ⟨false, s.members ++ t.members⟩

/-- The characters in both of two classes. -/
def inter (s t : CharClass) : CharClass := (s.complement.union t.complement).complement

/-- The characters in the first of two classes that are not in the second. -/
def diff (s t : CharClass) : CharClass := (s.complement.union t).complement

/-- The characters in exactly one of two classes. -/
def symmDiff (s t : CharClass) : CharClass := (s.diff t).union (t.diff s)

@[simp] theorem contains_complement (s : CharClass) (c : Char) :
    s.complement.contains c = !s.contains c := by
  simp [complement, contains]

theorem IsOrdered.complement {s : CharClass} (h : s.IsOrdered) : s.complement.IsOrdered := h

theorem IsOrdered.members {s : CharClass} (h : s.IsOrdered) :
    ∀ item ∈ s.members, item.IsOrdered := by
  unfold CharClass.members
  split
  · exact isOrdered_ofExtent (ascending_extent h)
  · exact h

theorem IsOrdered.union {s t : CharClass} (hs : s.IsOrdered) (ht : t.IsOrdered) :
    (s.union t).IsOrdered := fun item hitem =>
  (List.mem_append.1 hitem).elim (hs.members item) (ht.members item)

/-- The members of a class, taken together, hold the characters of the class. -/
theorem any_members {s : CharClass} (h : s.IsOrdered) (c : Char) :
    s.members.any (·.contains c) = s.contains c := by
  unfold members
  split
  · rw [← contains_extent s h, ← contains_ofExtent (ascending_extent h)]
    simp [contains, ofExtent]
  · next hs => simp [contains, hs]

@[simp] theorem contains_union {s t : CharClass} (hs : s.IsOrdered) (ht : t.IsOrdered)
    (c : Char) : (s.union t).contains c = (s.contains c || t.contains c) := by
  simp only [union, contains, List.any_append, Bool.bne_false]
  rw [any_members hs, any_members ht, contains, contains]

theorem contains_inter {s t : CharClass} (hs : s.IsOrdered) (ht : t.IsOrdered) (c : Char) :
    (s.inter t).contains c = (s.contains c && t.contains c) := by
  simp [inter, contains_union hs.complement ht.complement]

theorem contains_diff {s t : CharClass} (hs : s.IsOrdered) (ht : t.IsOrdered) (c : Char) :
    (s.diff t).contains c = (s.contains c && !t.contains c) := by
  simp [diff, contains_union hs.complement ht]

theorem contains_symmDiff {s t : CharClass} (hs : s.IsOrdered) (ht : t.IsOrdered) (c : Char) :
    (s.symmDiff t).contains c = (s.contains c != t.contains c) := by
  have hst : (s.diff t).IsOrdered := (hs.complement.union ht).complement
  have hts : (t.diff s).IsOrdered := (ht.complement.union hs).complement
  rw [symmDiff, contains_union hst hts, contains_diff hs ht, contains_diff ht hs]
  cases s.contains c <;> cases t.contains c <;> rfl

end ImportSuffix.CharClass
