/-!
# Sets of numbers

A finite set of natural numbers, kept as the binary digits of one number: the digit of weight
`2 ^ n` says whether `n` is in it. A set of numbers below 63 takes no memory of its own.
-/

namespace ImportSuffix

/-- A finite set of natural numbers. -/
structure Marks where
  digits : Nat
  deriving Repr, DecidableEq, Hashable

namespace Marks

/-- The set without numbers. -/
def none : Marks := ⟨0⟩

/-- Whether a number is in the set. -/
def has (s : Marks) (n : Nat) : Bool := s.digits.testBit n

/-- The set together with one number. -/
def insert (s : Marks) (n : Nat) : Marks := ⟨s.digits ||| 1 <<< n⟩

/-- The numbers that are in both sets. -/
def inter (s t : Marks) : Marks := ⟨s.digits &&& t.digits⟩

/-- The set of the numbers in a list. -/
def ofList (ns : List Nat) : Marks := ns.foldl insert none

@[simp] theorem has_none (n : Nat) : none.has n = false := by simp [none, has]

@[simp] theorem has_insert (s : Marks) (m n : Nat) :
    (s.insert m).has n = (s.has n || decide (m = n)) := by
  simp [insert, has, Nat.one_shiftLeft, Nat.testBit_two_pow]

@[simp] theorem has_inter (s t : Marks) (n : Nat) : (s.inter t).has n = (s.has n && t.has n) := by
  simp [inter, has]

theorem has_foldl_insert (ns : List Nat) (s : Marks) (n : Nat) :
    (ns.foldl insert s).has n = (s.has n || decide (n ∈ ns)) := by
  induction ns generalizing s with
  | nil => simp
  | cons m ns ih => simp [ih, Bool.or_assoc, Bool.decide_or, eq_comm (a := n)]

@[simp] theorem has_ofList (ns : List Nat) (n : Nat) : (ofList ns).has n = decide (n ∈ ns) := by
  simp [ofList, has_foldl_insert]

end Marks

end ImportSuffix
