import Std.Data.HashMap

/-!
# Functions that remember

A `Memo` of a function holds the results computed so far, so that none of them is computed twice.
What it answers is what the function answers (`Memo.get_fst`).
-/

namespace ImportSuffix

/-- Results of a function, by their arguments. -/
structure Memo {α β : Type} [BEq α] [Hashable α] (f : α → β) where
  known : Std.HashMap α β
  eq_of_known : ∀ a b, known[a]? = some b → b = f a

namespace Memo

variable {α β : Type} [BEq α] [Hashable α] [LawfulBEq α] {f : α → β}

/-- Nothing is known yet. -/
def empty : Memo f := ⟨∅, fun a b h => by simp at h⟩

/-- The result for an argument, computed only if it is not known, and what is known then. -/
def get (memo : Memo f) (a : α) : β × Memo f :=
  match memo.known[a]? with
  | some b => (b, memo)
  | none =>
    let b := f a
    (b, ⟨memo.known.insert a b, fun c d h => by
      rw [Std.HashMap.getElem?_insert] at h
      split at h
      · next heq => rw [← Option.some.inj h, ← eq_of_beq heq]
      · exact memo.eq_of_known c d h⟩)

@[simp] theorem get_fst (memo : Memo f) (a : α) : (memo.get a).1 = f a := by
  unfold get
  split
  · next b h => exact memo.eq_of_known a b h
  · rfl

end Memo

end ImportSuffix
