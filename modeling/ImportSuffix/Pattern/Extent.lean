import ImportSuffix.Pattern.Basic

/-!
# The extent of a class

A class can be written in many ways: `[abc]`, `[a-c]` and `[cba]` are the same. Its extent, the code
points of its members as sorted intervals that do not touch, does not depend on that, so classes are
compared by their extents. It holds the characters of the class (`CharClass.contains_extent`).
-/

namespace ImportSuffix

open Text (Intervals)

namespace ClassItem

/-- The code points of an item. -/
def extent : ClassItem → Intervals
  | .range first last => [(first.toNat, last.toNat)]
  | .blank holds => if holds then Text.blanks else Text.blanks.complement
  | .digit holds => if holds then Text.digits else Text.digits.complement
  | .word holds => if holds then Text.words else Text.words.complement

/-- Whether the ends of a range are in order. -/
def IsOrdered : ClassItem → Prop
  | .range first last => first.toNat ≤ last.toNat
  | _ => True

theorem ascending_extent {item : ClassItem} (h : item.IsOrdered) : item.extent.Ascending := by
  have hpick : ∀ {table : Intervals}, table.Ascending → ∀ holds : Bool,
      Intervals.Ascending (if holds then table else table.complement) := fun ht holds => by
    cases holds
    · exact Intervals.ascending_complement ht
    · exact ht
  cases item with
  | range first last => simpa [extent, Intervals.Ascending, IsOrdered] using h
  | blank holds => exact hpick Text.blanks_ascending holds
  | digit holds => exact hpick Text.digits_ascending holds
  | word holds => exact hpick Text.words_ascending holds

/-- The extent of an item holds the characters that the item means. -/
theorem contains_extent (item : ClassItem) (c : Char) :
    item.extent.contains c.toNat = item.contains c := by
  have hpick : ∀ {table : Intervals}, table.Ascending → ∀ holds : Bool,
      Intervals.contains (if holds then table else table.complement) c.toNat =
        (table.contains c.toNat == holds) := fun ht holds => by
    cases holds
    · simp [Intervals.contains_complement ht (Text.toNat_le c)]
    · simp
  cases item with
  | range first last =>
    simp only [extent, contains, Intervals.contains]
    split
    · next h => simp [Nat.not_le.2 h]
    · next h => simp [Nat.not_lt.1 h]
  | blank holds => exact hpick Text.blanks_ascending holds
  | digit holds => exact hpick Text.digits_ascending holds
  | word holds => exact hpick Text.words_ascending holds

end ClassItem

namespace CharClass

/-- The code points of a class. Classes are alike if they have the same. -/
def extent (s : CharClass) : Intervals :=
  let members := Intervals.ofList (s.items.flatMap ClassItem.extent)
  if s.negated then members.complement else members

theorem ascending_members {items : List ClassItem} (h : ∀ item ∈ items, item.IsOrdered) :
    (Intervals.ofList (items.flatMap ClassItem.extent)).Ascending :=
  Intervals.ascending_ofList fun e he => by
    obtain ⟨item, hitem, he⟩ := List.mem_flatMap.1 he
    exact (ClassItem.ascending_extent (h item hitem)).1 e he

theorem ascending_extent {s : CharClass} (h : ∀ item ∈ s.items, item.IsOrdered) :
    s.extent.Ascending := by
  unfold extent
  cases s.negated
  · exact ascending_members h
  · exact Intervals.ascending_complement (ascending_members h)

/-- The extent of a class holds the characters of the class. -/
theorem contains_extent (s : CharClass) (h : ∀ item ∈ s.items, item.IsOrdered) (c : Char) :
    s.extent.contains c.toNat = s.contains c := by
  have hasc := ascending_members h
  have hmembers : (Intervals.ofList (s.items.flatMap ClassItem.extent)).contains c.toNat =
      s.items.any (·.contains c) := by
    rw [Bool.eq_iff_iff, Intervals.contains_ofList, List.any_eq_true]
    constructor
    · rintro ⟨e, he, hle⟩
      obtain ⟨item, hitem, he⟩ := List.mem_flatMap.1 he
      refine ⟨item, hitem, ?_⟩
      rw [← ClassItem.contains_extent,
        Intervals.contains_iff (ClassItem.ascending_extent (h item hitem))]
      exact ⟨e, he, hle⟩
    · rintro ⟨item, hitem, hc⟩
      rw [← ClassItem.contains_extent,
        Intervals.contains_iff (ClassItem.ascending_extent (h item hitem))] at hc
      obtain ⟨e, he, hle⟩ := hc
      exact ⟨e, List.mem_flatMap.2 ⟨item, hitem, he⟩, hle⟩
  unfold extent contains
  cases s.negated
  · simp [hmembers]
  · simp [Intervals.contains_complement hasc (Text.toNat_le c), hmembers]

/-! ### Classes of an extent -/

/-- Whether some code point of an interval is a character. -/
def holdsChar (entry : Nat × Nat) : Bool :=
  entry.1 ≤ 0x10FFFF && !(0xD800 ≤ entry.1 && entry.2 < 0xE000)

/-- The first character that is not before a code point. -/
def charFrom (n : Nat) : Char :=
  if 0xD800 ≤ n ∧ n < 0xE000 then '\uE000' else Char.ofNat n

/-- The last character that is not after a code point. -/
def charUpTo (n : Nat) : Char :=
  if 0xD800 ≤ n ∧ n < 0xE000 then '\uD7FF' else Char.ofNat (min n 0x10FFFF)

/-- The class of some code points. -/
def ofExtent (extent : Intervals) : CharClass :=
  ⟨false, (extent.filter holdsChar).map fun (first, last) =>
    .range (charFrom first) (charUpTo last)⟩

theorem toNat_charFrom {n : Nat} (h : n ≤ 0x10FFFF) :
    (charFrom n).toNat = if 0xD800 ≤ n ∧ n < 0xE000 then 0xE000 else n := by
  unfold charFrom
  split
  · rfl
  · exact Text.toNat_ofNat (by unfold Nat.isValidChar; omega)

theorem toNat_charUpTo (n : Nat) :
    (charUpTo n).toNat = if 0xD800 ≤ n ∧ n < 0xE000 then 0xD7FF else min n 0x10FFFF := by
  unfold charUpTo
  split
  · rfl
  · exact Text.toNat_ofNat (by unfold Nat.isValidChar; omega)

/-- The ends of the ranges of an extent are in order. -/
theorem isOrdered_ofExtent {extent : Intervals} (h : extent.Ascending) :
    ∀ item ∈ (ofExtent extent).items, item.IsOrdered := fun item hitem => by
  obtain ⟨⟨first, last⟩, he, rfl⟩ := List.mem_map.1 hitem
  obtain ⟨he, hchar⟩ := List.mem_filter.1 he
  have hle : first ≤ last := h.1 _ he
  simp only [holdsChar, Bool.and_eq_true, decide_eq_true_eq, Bool.not_eq_true',
    Bool.and_eq_false_iff, decide_eq_false_iff_not] at hchar
  simp only [ClassItem.IsOrdered, toNat_charFrom hchar.1, toNat_charUpTo]
  split <;> split <;> omega

/-- The class of an extent holds the characters of the extent. -/
theorem contains_ofExtent {extent : Intervals} (h : extent.Ascending) (c : Char) :
    (ofExtent extent).contains c = extent.contains c.toNat := by
  have hc : c.toNat ≤ 0x10FFFF ∧ ¬(0xD800 ≤ c.toNat ∧ c.toNat < 0xE000) := by
    have := c.valid
    simp only [UInt32.isValidChar, Nat.isValidChar] at this
    simp only [Char.toNat]
    omega
  rw [Bool.eq_iff_iff, Intervals.contains_iff h]
  simp only [ofExtent, contains, List.any_map, Bool.bne_false, List.any_eq_true, List.mem_filter,
    Function.comp_apply, ClassItem.contains, holdsChar, Bool.and_eq_true, decide_eq_true_eq,
    Bool.not_eq_true', Bool.and_eq_false_iff, decide_eq_false_iff_not]
  constructor
  · rintro ⟨⟨first, last⟩, ⟨he, hfirst, -⟩, hle⟩
    refine ⟨(first, last), he, ?_⟩
    rw [toNat_charFrom hfirst, toNat_charUpTo] at hle
    simp only
    revert hle
    split <;> split <;> omega
  · rintro ⟨⟨first, last⟩, he, hle⟩
    simp only at hle
    have hfirst : first ≤ 0x10FFFF := by omega
    refine ⟨(first, last), ⟨he, hfirst, by simp only; omega⟩, ?_⟩
    rw [toNat_charFrom hfirst, toNat_charUpTo]
    split <;> split <;> omega

end CharClass

end ImportSuffix
