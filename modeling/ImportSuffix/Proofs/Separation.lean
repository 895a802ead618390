import ImportSuffix.Proofs.Convergence

/-!
# Texts in a row

What the suffix rules make of two texts in a row is what they make of each of them, if nothing at
the end of the first text concerns a clause of the second. A revision splits at the seam if none of
its clauses lies over it and the first clause of the second text is revised as it is by itself
(`Quoted.Splits`). The revisions of both rules do so when the last run of the first text is inert
(`Text.Inert`) and the run before that does not end in `from` and white space; and the rule for
clauses of their own leaves it so, if that run does not end in `from`, white space and the suffix
either (`Quoted.not_endsInFrom_run_revise`).
-/

namespace ImportSuffix

open Text

namespace Clause

/-- The clause with more text in front of its head. -/
def after (s : List Char) (c : Clause) : Clause := { c with head := s ++ c.head }

end Clause

namespace Quoted

variable {A B : Quoted} {f : Revision} {k : Nat}

theorem clauseAt_append_of_lt (h : k + 1 < A.size) : (A.append B).clauseAt k = A.clauseAt k :=
  Clause.ext (run_append_of_lt (Nat.lt_of_succ_lt h)) (quote_append_of_lt (Nat.lt_of_succ_lt h))
    (run_append_of_lt h) (quote_append_of_lt h)

theorem clauseAt_append_add (k : Nat) :
    (A.append B).clauseAt (A.size + k) = (B.clauseAt k).after (A.lead k) :=
  Clause.ext (run_append_add k) (quote_append_add k) (run_append_add (k + 1))
    (quote_append_add (k + 1))

/-- The last run of a text is the head and the path of no clause. -/
theorem lead_revise (T : Quoted) (f : Revision) (k : Nat) : (T.revise f).lead k = T.lead k := by
  cases k with
  | zero =>
    rw [lead_zero, lead_zero, size_revise]
    exact run_revise_of_none (revisedBefore_eq_none_of_size_le (Nat.le_refl _))
      (revisedAt_eq_none_of_size_le (Nat.le_succ _))
  | succ k => rfl

/-- That no clause that a revision is for begins in the first of two texts and ends in the second,
and that the first clause of the second text is revised as it is without the first text. -/
structure Splits (f : Revision) (A B : Quoted) : Prop where
  seam : ∀ k, k + 1 = A.size → (A.append B).revisedAt f k = none
  first : f.revise? ((B.clauseAt 0).after (A.run A.size)) =
    (f.revise? (B.clauseAt 0)).map (Clause.after (A.run A.size))

namespace Splits

theorem revisedAt_of_lt (h : Splits f A B) (hk : k < A.size) :
    (A.append B).revisedAt f k = A.revisedAt f k := by
  rcases Nat.lt_or_eq_of_le (Nat.succ_le_of_lt hk) with hlt | heq
  · rw [revisedAt, revisedAt, size_append, if_pos (Nat.lt_add_right _ hlt), if_pos hlt,
      clauseAt_append_of_lt hlt]
  · rw [h.seam k heq, revisedAt_eq_none_of_size_le (Nat.le_of_eq heq.symm)]

theorem revisedBefore_of_le (h : Splits f A B) (hk : k ≤ A.size) :
    (A.append B).revisedBefore f k = A.revisedBefore f k := by
  cases k with
  | zero => rfl
  | succ j => exact h.revisedAt_of_lt hk

theorem revisedAt_add (h : Splits f A B) (k : Nat) :
    (A.append B).revisedAt f (A.size + k) = (B.revisedAt f k).map (Clause.after (A.lead k)) := by
  have hrevise : f.revise? ((B.clauseAt k).after (A.lead k)) =
      (f.revise? (B.clauseAt k)).map (Clause.after (A.lead k)) := by
    cases k with
    | zero => exact h.first
    | succ k => exact Option.map_id'.symm
  simp only [revisedAt, size_append, Nat.add_assoc, Nat.add_lt_add_iff_left, clauseAt_append_add,
    hrevise]
  split <;> rfl

theorem revisedBefore_add (h : Splits f A B) (k : Nat) :
    ∃ s, (A.append B).revisedBefore f (A.size + k) =
      (B.revisedBefore f k).map (Clause.after s) := by
  cases k with
  | zero =>
    rw [Nat.add_zero, h.revisedBefore_of_le (Nat.le_refl _),
      revisedBefore_eq_none_of_size_le (Nat.le_refl _)]
    exact ⟨[], rfl⟩
  | succ k => exact ⟨A.lead k, h.revisedAt_add k⟩

/-- Revising two texts in a row is revising each of them, if the revision splits at the seam. -/
theorem revise_append (h : Splits f A B) :
    (A.append B).revise f = (A.revise f).append (B.revise f) := by
  refine ext_of_forall (by simp) (fun k => ?run) fun k => ?quote
  case run =>
    rcases Nat.lt_or_ge k A.size with hk | hk
    · rw [run_append_of_lt (by rwa [size_revise]), run_revise, run_revise, revisedRun, revisedRun,
        h.revisedBefore_of_le (Nat.le_of_lt hk), h.revisedAt_of_lt hk, run_append_of_lt hk]
    · obtain ⟨k, rfl⟩ := Nat.exists_eq_add_of_le hk
      have hright := run_append_add (A := A.revise f) (B := B.revise f) k
      rw [size_revise] at hright
      obtain ⟨s, hs⟩ := h.revisedBefore_add k
      rw [hright, run_revise, run_revise, revisedRun, revisedRun, hs, h.revisedAt_add k,
        run_append_add, lead_revise]
      cases hb : B.revisedBefore f k with
      | none => cases B.revisedAt f k <;> rfl
      | some c =>
        obtain ⟨j, rfl⟩ := Nat.exists_eq_succ_of_ne_zero (lt_size_of_revisedBefore hb).1.ne'
        rfl
  case quote =>
    rcases Nat.lt_or_ge k A.size with hk | hk
    · rw [quote_append_of_lt (by rwa [size_revise]), quote_revise, quote_revise, revisedQuote,
        revisedQuote, h.revisedBefore_of_le (Nat.le_of_lt hk), h.revisedAt_of_lt hk,
        quote_append_of_lt hk]
    · obtain ⟨k, rfl⟩ := Nat.exists_eq_add_of_le hk
      have hright := quote_append_add (A := A.revise f) (B := B.revise f) k
      rw [size_revise] at hright
      obtain ⟨s, hs⟩ := h.revisedBefore_add k
      rw [hright, quote_revise, quote_revise, revisedQuote, revisedQuote, hs, h.revisedAt_add k,
        quote_append_add]
      cases B.revisedBefore f k <;> cases B.revisedAt f k <;> rfl

end Splits

end Quoted

/-! ### Readings -/

namespace Reading

/-- The reading of a clause with more text in front of its head. -/
def after (s : List Char) : Reading → Reading
  | own before stem => own (s ++ before) stem
  | statement lead between stem => statement (s ++ lead) between stem

end Reading

theorem Clause.reading?_after {s : List Char} (hs : Inert s) (c : Clause) :
    (c.after s).reading? = c.reading?.map (Reading.after s) := by
  have hfrom := beforeFrom?_append (t := c.head) hs.outside hs.noFrom
  simp only [reading?, after, hfrom]
  cases beforeFrom? c.head with
  | none => rfl
  | some before =>
    cases beforeSuffix? c.path with
    | none => rfl
    | some stem =>
      simp only [Option.map_some, statementIn?_append hs.outside hs.noImport]
      cases statementIn? before <;> rfl

namespace Revision

/-- That a revision does the same to a clause whatever text without concern is in front of it. -/
def IsLocal (f : Revision) : Prop :=
  ∀ {s : List Char}, Inert s → ∀ c : Clause,
    f.revise? (c.after s) = (f.revise? c).map (Clause.after s)

theorem isLocal_byReading {make : Clause → Reading → Option Clause}
    {hmake : ∀ c c' r, c.reading? = some r → make c r = some c' → c.StrippedTo c'}
    (h : ∀ s c r, make (c.after s) (r.after s) = (make c r).map (Clause.after s)) :
    (byReading make hmake).IsLocal := by
  intro s hs c
  simp only [byReading, Clause.reading?_after hs]
  cases c.reading? with
  | none => rfl
  | some r => exact h s c r

theorem isLocal_ownClauses : ownClauses.IsLocal := by
  refine isLocal_byReading fun s c r => ?_
  cases r with
  | own before stem =>
    simp only [Reading.after, Clause.strippedOwn, Clause.after, Option.map_some, List.append_assoc]
  | statement lead between stem => rfl

theorem isLocal_statements : statements.IsLocal := by
  refine isLocal_byReading fun s c r => ?_
  cases r with
  | own before stem => rfl
  | statement lead between stem =>
    simp only [Reading.after, Clause.strippedStatement, Clause.after, Option.map_some,
      List.append_assoc]

end Revision

namespace Quoted

variable {T A B : Quoted} {f : Revision} {k : Nat}

theorem splits_of_inert (hf : f.Strips) (hlocal : f.IsLocal) (hinert : Inert (A.run A.size))
    (hhead : ∀ k, k + 1 = A.size → ¬ EndsInFrom (A.run k)) (B : Quoted) : Splits f A B where
  seam k hk := by
    refine revisedAt_eq_none_of_readingAt? hf ?_
    rw [Option.eq_none_iff_forall_ne_some]
    intro r hr
    have hfrom := (exists_readingAt?_iff.1 ⟨r, hr⟩).2.1
    rw [run_append_of_lt (by omega)] at hfrom
    exact hhead k hk hfrom
  first := hlocal hinert (B.clauseAt 0)

/-- A run that is the head of no revised clause ends in `from` only if it did so before, or lost the
suffix behind it. -/
theorem not_endsInFrom_run_revise (hf : f.Strips) (hat : T.revisedAt f k = none)
    (hfrom : ¬ EndsInFrom (T.run k)) (hsuffix : ¬ EndsInFromSuffix (T.run k)) :
    ¬ EndsInFrom ((T.revise f).run k) := by
  cases hb : T.revisedBefore f k with
  | none => rwa [run_revise_of_none hb hat]
  | some c =>
    rw [run_revise_of_before hb]
    cases k with
    | zero => cases hb
    | succ j => exact not_endsInFrom_of_revisedAt hf hb hsuffix

theorem revise_revise_append (hinert : Inert (A.run A.size))
    (hhead : ∀ k, k + 1 = A.size → ¬ EndsInFrom (A.run k) ∧ ¬ EndsInFromSuffix (A.run k))
    (B : Quoted) : ((A.append B).revise .ownClauses).revise .statements =
      ((A.revise .ownClauses).revise .statements).append
        ((B.revise .ownClauses).revise .statements) := by
  have hfirst : Splits .ownClauses A B :=
    splits_of_inert Revision.strips_ownClauses Revision.isLocal_ownClauses hinert
      (fun k hk => (hhead k hk).1) B
  have hinert' : Inert ((A.revise .ownClauses).run (A.revise .ownClauses).size) := by
    have hlead : (A.revise .ownClauses).lead 0 = A.lead 0 := lead_revise A .ownClauses 0
    rw [lead_zero, lead_zero] at hlead
    rwa [hlead]
  have hhead' : ∀ k, k + 1 = (A.revise .ownClauses).size →
      ¬ EndsInFrom ((A.revise .ownClauses).run k) := by
    intro k hk
    rw [size_revise] at hk
    exact not_endsInFrom_run_revise Revision.strips_ownClauses
      (revisedAt_eq_none_of_size_le (Nat.le_of_eq hk.symm)) (hhead k hk).1 (hhead k hk).2
  have hsecond : Splits .statements (A.revise .ownClauses) (B.revise .ownClauses) :=
    splits_of_inert Revision.strips_statements Revision.isLocal_statements hinert' hhead' _
  rw [hfirst.revise_append, hsecond.revise_append]

end Quoted

namespace Rule

open Quoted (ofText)

/-- The last run of whole lines does not end within a word. -/
theorem isWordSide_getLast?_run_size {a : String} (h : a = "" ∨ a.toList.getLast? = some '\n') :
    Cursor.isWordSide ((ofText a.toList).run (ofText a.toList).size).getLast? = false := by
  by_cases hnil : (ofText a.toList).run (ofText a.toList).size = []
  · rw [hnil]
    rfl
  · rw [Quoted.getLast?_run_size _ hnil, Quoted.text_ofText]
    rcases h with rfl | hlast
    · rfl
    · rw [hlast]
      decide +kernel

/-- What the rules make of two texts in a row is what they make of each, if the first one is empty,
or ends with a line break, has neither `import` nor `from` behind its last quote, and before that
quote does not end in `from` and white space, with or without the suffix. -/
theorem applyRules_suffixRules_append {a : String}
    (h : a = "" ∨ a.toList.getLast? = some '\n' ∧
      ¬ HasWord "import".toList ((ofText a.toList).run (ofText a.toList).size) ∧
      ¬ HasWord "from".toList ((ofText a.toList).run (ofText a.toList).size) ∧
      (0 < (ofText a.toList).size →
        ¬ EndsInFrom ((ofText a.toList).run ((ofText a.toList).size - 1)) ∧
        ¬ EndsInFromSuffix ((ofText a.toList).run ((ofText a.toList).size - 1))))
    (b : String) :
    applyRules suffixRules (a ++ b) = applyRules suffixRules a ++ applyRules suffixRules b := by
  rcases h with rfl | ⟨hlast, himport, hfrom, hhead⟩
  · have hempty : applyRules suffixRules "" = "" :=
      applyRules_suffixRules_of_clauseCount (by decide +kernel)
    rw [String.empty_append, hempty, String.empty_append]
  · have hinert : Inert ((ofText a.toList).run (ofText a.toList).size) :=
      ⟨isWordSide_getLast?_run_size (.inr hlast), hfrom, himport⟩
    have hhead' : ∀ k, k + 1 = (ofText a.toList).size →
        ¬ EndsInFrom ((ofText a.toList).run k) ∧ ¬ EndsInFromSuffix ((ofText a.toList).run k) := by
      intro k hk
      rw [← hk] at hhead
      exact hhead (Nat.succ_pos k)
    rw [← String.toList_inj, String.toList_append, toList_applyRules, toList_applyRules,
      toList_applyRules, String.toList_append, Quoted.ofText_append,
      Quoted.revise_revise_append hinert hhead', Quoted.text_append]

/-- A clause of its own and a text with the suffix in quotes, and a statement behind them. -/
theorem applyRules_suffixRules_append_statement :
    applyRules suffixRules
        ("export * from \"./a.js\";\nopen('x.js');\n" ++ "import b from \"./b.js\";\n") =
      applyRules suffixRules "export * from \"./a.js\";\nopen('x.js');\n" ++
        applyRules suffixRules "import b from \"./b.js\";\n" :=
  applyRules_suffixRules_append (by decide +kernel) _

end Rule

end ImportSuffix
