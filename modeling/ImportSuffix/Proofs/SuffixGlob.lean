import ImportSuffix.Glob
import Mathlib.Tactic.Ring

/-!
# Globs that ask for an ending

A glob that is a star and a text without marks matches the names that end in that text, if they have
no separator (`isMatch_star_cons_iff`). The machine reads the text from a position of the name on
(`scanning`), and on a mismatch goes back to the star and from there to the next position
(`starting`). What is kept is that the part of the text that has been read is in the name at that
position, and the verdict is about what is left of the name from there (`run_scanning_iff`).
-/

namespace ImportSuffix.Glob

open Text (Bytes)

/-- The characters with a meaning in a glob or in a path. -/
def marks : List Char := "*?[]\x7b\x7d,\\!/".toList

/-- That a byte stands for itself in a glob that opens no braces and no class. -/
structure IsPlain (b : UInt8) : Prop where
  ne_star : b ≠ code '*'
  ne_any : b ≠ code '?'
  ne_class : b ≠ code '['
  ne_brace : b ≠ code '\x7b'
  ne_escape : b ≠ code '\\'

/-- The machine at the star, which it may have gone back to. -/
def starting (star : Star) (p : Nat) : Machine := ⟨⟨0, p, star, .none⟩, [], 0⟩

/-- The machine that has matched so much of the text behind the star with the name from a position
on. -/
def scanning (p i : Nat) : Machine := ⟨⟨i + 1, p + i, ⟨0, p + 1⟩, .none⟩, [], 0⟩

variable {glob name : Array UInt8} {star : Star} {p i : Nat} {c? b? : Option UInt8}

/-! ### Steps -/

theorem step_starting (hstar : glob[0]? = some (code '*')) (hsingle : hasAt glob 1 '*' = false)
    (hseparator : separatorAt name p = false) :
    step glob name false (starting star p) = .step (scanning p 0) := by
  simp [step, starting, hstar, starStep, State.readStar, hsingle, hseparator, scanning]

/-- Where the text and the name differ, the machine goes back to the star, if there is a next
position. -/
theorem mismatch_scanning : mismatch glob name false (scanning p i) =
    if p + 1 ≤ name.size then .step (starting ⟨0, p + 1⟩ (p + 1)) else .verdict false := by
  by_cases hle : p + 1 ≤ name.size
  · simp [mismatch, scanning, Star.isUsable, hle, State.retry, starting]
  · simp [mismatch, scanning, Star.isUsable, hle]

theorem literalAt_of_isPlain {c : UInt8} (hc : glob[i]? = some c) (hplain : IsPlain c) :
    literalAt glob i = some (c, i) := by
  simp [literalAt, hc, hplain.ne_escape]

/-- A byte that stands for itself is compared with the byte of the name. -/
theorem step_of_isPlain {s : State} {c : UInt8} (hc : glob[s.glob]? = some c)
    (hb : name[s.name]? = b?) (hplain : IsPlain c) :
    step glob name false ⟨s, [], 0⟩ = match b? with
      | none => mismatch glob name false ⟨s, [], 0⟩
      | some b => literalStep glob name false ⟨s, [], 0⟩ b := by
  cases b? <;>
    simp [step, step.byteStep, hc, hb, hplain.ne_star, hplain.ne_any, hplain.ne_class,
      hplain.ne_brace]

theorem step_scanning_of_ne (hc : glob[i + 1]? = c?) (hb : name[p + i]? = b?)
    (hplain : ∀ c ∈ c?, IsPlain c) (hne : c? ≠ b?) :
    step glob name false (scanning p i) = mismatch glob name false (scanning p i) := by
  cases c? with
  | none =>
    obtain ⟨b, rfl⟩ := Option.ne_none_iff_exists'.1 hne.symm
    simp [step, scanning, hc, hb]
  | some c =>
    have hc' := hplain c rfl
    rw [scanning, step_of_isPlain hc hb hc']
    cases b? with
    | none => rfl
    | some b =>
      have hne' : b ≠ c := fun h => hne (congrArg some h.symm)
      simp [literalStep, literalAt_of_isPlain hc hc', hne']

theorem step_scanning_of_eq {c : UInt8} (hc : glob[i + 1]? = some c) (hb : name[p + i]? = some c)
    (hplain : IsPlain c) :
    step glob name false (scanning p i) = .step (scanning p (i + 1)) := by
  rw [scanning, step_of_isPlain hc hb hplain]
  simp [literalStep, literalAt_of_isPlain hc hplain, scanning, Star.none, Nat.add_assoc]

theorem step_scanning_end (hc : glob[i + 1]? = none) (hb : name[p + i]? = none) :
    step glob name false (scanning p i) = .verdict true := by
  simp [step, scanning, hc, hb]

/-! ### Runs -/

variable {fuel : Nat} {text whole : Bytes}

theorem run_succ_of_step {m m' : Machine} (h : step glob name false m = .step m') :
    run glob name false (fuel + 1) m = run glob name false fuel m' := by
  rw [run, h]

theorem run_succ_of_verdict {m : Machine} {isMatch : Bool}
    (h : step glob name false m = .verdict isMatch) :
    run glob name false (fuel + 1) m = isMatch := by
  rw [run, h]

/-- The bytes of a glob that is a star and a text. -/
def starred (text : Bytes) : Array UInt8 := (code '*' :: text).toArray

theorem hasAt_starred (h : ∀ b ∈ text, IsPlain b) : hasAt (starred text) 1 '*' = false := by
  cases text with
  | nil => rfl
  | cons b text =>
    have hb := (h b List.mem_cons_self).ne_star
    simp [hasAt, starred, hb]

theorem separatorAt_eq_false (h : code '/' ∉ whole) (p : Nat) :
    separatorAt whole.toArray p = false := by
  rw [separatorAt, List.getElem?_toArray]
  cases hb : whole[p]? with
  | none => rfl
  | some b =>
    have hne : b ≠ code '/' := fun heq => h (heq ▸ List.mem_of_getElem? hb)
    simp [isSeparator, hne]

theorem getElem?_starred_append (read more : Bytes) :
    (starred (read ++ more))[read.length + 1]? = more.head? := by
  rw [starred, List.getElem?_toArray, List.getElem?_cons_succ,
    List.getElem?_append_right (Nat.le_refl _), Nat.sub_self, List.head?_eq_getElem?]

theorem getElem?_toArray_append (front read rest : Bytes) :
    (front ++ (read ++ rest)).toArray[front.length + read.length]? = rest.head? := by
  rw [List.getElem?_toArray, List.getElem?_append_right (Nat.le_add_right _ _),
    Nat.add_sub_cancel_left, List.getElem?_append_right (Nat.le_refl _), Nat.sub_self,
    List.head?_eq_getElem?]

section

variable (hplain : ∀ b ∈ text, IsPlain b) (hseparator : code '/' ∉ whole)
include hplain hseparator

theorem step_starting_starred (star : Star) (p : Nat) :
    step (starred text) whole.toArray false (starting star p) = .step (scanning p 0) :=
  step_starting rfl (hasAt_starred hplain) (separatorAt_eq_false hseparator p)

/-- After a mismatch the machine comes to the next position of the name. -/
theorem run_scanning_next (hlt : p < whole.length)
    (hstep : step (starred text) whole.toArray false (scanning p i) =
      mismatch (starred text) whole.toArray false (scanning p i)) :
    run (starred text) whole.toArray false (fuel + 2) (scanning p i) =
      run (starred text) whole.toArray false fuel (scanning (p + 1) 0) := by
  have hnext : p + 1 ≤ whole.toArray.size := hlt
  rw [mismatch_scanning, if_pos hnext] at hstep
  rw [run_succ_of_step hstep, run_succ_of_step (step_starting_starred hplain hseparator _ _)]

/-- From a state where a part of the text has been read in the name, the machine finds out whether
what is left of the name ends in the text. The bound on the number of steps counts, for each
position that is left of the name, the steps to the end of the text and two to the next position. -/
theorem run_scanning_iff (front read more rest : Bytes) (hwhole : whole = front ++ (read ++ rest))
    (htext : text = read ++ more)
    (hfuel : (read ++ rest).length * (text.length + 2) + more.length < fuel) :
    run (starred text) whole.toArray false fuel (scanning front.length read.length) = true ↔
      text <:+ read ++ rest := by
  induction fuel using Nat.strongRecOn generalizing front read more rest with
  | ind fuel ih =>
    obtain ⟨fuel, rfl⟩ := Nat.exists_eq_succ_of_ne_zero (Nat.ne_zero_of_lt hfuel)
    have hglob : (starred text)[read.length + 1]? = more.head? := by
      rw [htext, getElem?_starred_append]
    have hname : whole.toArray[front.length + read.length]? = rest.head? := by
      rw [hwhole, getElem?_toArray_append]
    have hmore : ∀ c ∈ more.head?, IsPlain c := by
      intro c hc
      exact hplain c (htext ▸ List.mem_append_right read (List.mem_of_head? hc))
    by_cases hhead : more.head? = rest.head?
    · cases more with
      | nil =>
        obtain rfl : rest = [] := List.head?_eq_none_iff.1 hhead.symm
        rw [run_succ_of_verdict (step_scanning_end hglob hname), htext]
        simp
      | cons c more =>
        -- One byte more of the text has been read.
        obtain ⟨rest, rfl⟩ : ∃ r, rest = c :: r := List.head?_eq_some_iff.1 hhead.symm
        rw [run_succ_of_step (step_scanning_of_eq hglob hname (hmore c rfl))]
        have hnext := ih fuel (Nat.lt_succ_self fuel) front (read ++ [c]) more rest
          (by simpa using hwhole) (by simpa using htext) (by
            simp only [List.append_assoc, List.singleton_append, List.length_cons] at hfuel ⊢
            omega)
        simpa using hnext
    · have hstep := step_scanning_of_ne hglob hname hmore hhead
      have hne : text ≠ read ++ rest := by
        rintro heq
        rw [htext] at heq
        exact hhead (congrArg List.head? (List.append_cancel_left heq))
      cases hleft : read ++ rest with
      | nil =>
        have hlast : ¬ front.length + 1 ≤ whole.toArray.size := by simp [hwhole, hleft]
        rw [hleft] at hne
        rw [mismatch_scanning, if_neg hlast] at hstep
        rw [run_succ_of_verdict hstep, List.suffix_nil]
        simp [hne]
      | cons b left =>
        -- The text is no ending that begins here, so it is one exactly if it begins later.
        have hlt : front.length < whole.length := by simp [hwhole, hleft]
        rw [hleft] at hne
        rw [hleft, List.length_cons, Nat.add_mul] at hfuel
        obtain ⟨fuel, rfl⟩ := Nat.exists_eq_succ_of_ne_zero (show fuel ≠ 0 by omega)
        have hnext := ih fuel (by omega) (front ++ [b]) [] text left (by simp [hwhole, hleft])
          rfl (by
            rw [List.nil_append]
            omega)
        rw [run_scanning_next hplain hseparator hlt hstep, List.suffix_cons_iff]
        simpa [hne] using hnext

/-- A star and a text without marks match exactly the names without separators that end in the
text. -/
theorem isMatch_star_cons_iff : isMatch (code '*' :: text) whole = true ↔ text <:+ whole := by
  have hmarks : ((code '*' :: text).takeWhile (· == code '!')).length = 0 := rfl
  have hbound : whole.length * (text.length + 2) + text.length + 1 <
      stepBound (starred text) whole.toArray := by
    have hpow := Nat.le_self_pow (show maxDepth + 2 ≠ 0 by decide)
      ((text.length + 1 + 2) * (whole.length + 2))
    have hproduct : (text.length + 1 + 2) * (whole.length + 2) =
        whole.length * (text.length + 2) + whole.length + 2 * text.length + 6 := by ring
    exact Nat.lt_of_lt_of_le (by omega) hpow
  obtain ⟨fuel, hfuel⟩ := Nat.exists_eq_succ_of_ne_zero (Nat.ne_zero_of_lt hbound)
  rw [hfuel] at hbound
  rw [isMatch, hmarks]
  change run (starred text) whole.toArray false (stepBound (starred text) whole.toArray)
    (starting .none 0) = true ↔ _
  rw [hfuel, run_succ_of_step (step_starting_starred hplain hseparator _ _)]
  exact run_scanning_iff hplain hseparator [] [] text whole rfl rfl (Nat.lt_of_succ_lt_succ hbound)

end

end ImportSuffix.Glob
