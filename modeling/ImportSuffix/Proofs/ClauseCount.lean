import ImportSuffix.Pattern.Places
import ImportSuffix.Proofs.SuffixRewrite
import Mathlib.Algebra.Order.BigOperators.Group.LocallyFinite

/-!
# Counting clauses with the suffix

How often a clause `from '….js'` occurs in a text is said in two ways: by the places where one
begins (`clauseCount`), without reference to quotes, runs or readings, and by the heads of the
clauses that are read (`clauseCount_eq_sum`). The second way is the one that revisions work with.

Every revision that strips makes a text shorter by what it takes from each of its clauses
(`length_revise_le`).
-/

namespace ImportSuffix

open Text
open Cursor (isWordSide)

namespace Cursor

/-- That a clause with the suffix begins at a place: the word `from`, white space, a quote, a text
without quotes that ends in the suffix, and a quote. -/
def BeginsClause (here : Cursor) : Prop :=
  isWordSide here.prev = false ∧ ∃ gap q stem q' r, IsGap gap ∧ isQuote q = true ∧
    Unquoted stem ∧ isQuote q' = true ∧
    here.rest = "from".toList ++ gap ++ q :: (stem ++ ".js".toList ++ q' :: r)

theorem beginsClause_iff_exists_isTail {here : Cursor} :
    here.BeginsClause ↔ isWordSide here.prev = false ∧
      ∃ (d : Clause) (gap stem r : List Char), d.IsTail gap stem ∧ here.rest = d.text ++ r := by
  constructor
  · rintro ⟨hside, gap, q, stem, q', r, hgap, hq, hstem, hq', hrest⟩
    refine ⟨hside, ⟨"from".toList ++ gap, q, stem ++ ".js".toList, q'⟩, gap, stem, r,
      ⟨⟨?_, hq, ?_, hq'⟩, hgap, rfl, rfl⟩, by rw [hrest, Clause.text_append]⟩
    · exact unquoted_append.2 ⟨by decide, unquoted_of_blank hgap.2⟩
    · exact unquoted_append.2 ⟨hstem, by decide⟩
  · rintro ⟨hside, d, gap, stem, r, hd, hrest⟩
    have hstem := hd.wellFormed.path
    rw [hd.path, unquoted_append] at hstem
    refine ⟨hside, gap, d.opening, stem, d.closing, r, hd.isGap, hd.wellFormed.opening, hstem.1,
      hd.wellFormed.closing, ?_⟩
    rw [hrest, Clause.text_append, hd.head, hd.path]

/-- Within the text from a run on, a clause begins where the `from` stands with which the run
ends. -/
theorem beginsClause_past_iff {T : Quoted} {k : Nat} {here : Cursor} {v r : List Char}
    (hk : k ≤ T.size) (hprev : isWordSide here.prev = false) (hrest : here.rest = T.textFrom k)
    (hv : here.rest = v ++ r) (hunquoted : Unquoted v) :
    (here.past v r).BeginsClause ↔
      k + 1 < T.size ∧ beforeFrom? (T.run k) = some v ∧ ".js".toList <:+ T.run (k + 1) := by
  rw [beginsClause_iff_exists_isTail, isWordSide_past hprev, rest_past]
  constructor
  · rintro ⟨hside, d, gap, stem, r', hd, rfl⟩
    have h := ClauseAt.of_isTail hd hv hunquoted hside
    obtain ⟨hlt, hc⟩ := Quoted.eq_clauseAt hk h.wellFormed (hrest.symm.trans h.rest)
    have hbefore := h.before
    have hpath := h.path
    rw [hc] at hbefore hpath
    exact ⟨hlt, hbefore, stem, hpath.symm⟩
  · rintro ⟨hlt, hbefore, stem, hpath⟩
    have h : ClauseAt here (T.clauseAt k) v stem (T.textFrom (k + 2)) :=
      ⟨T.wellFormed_clauseAt k, hrest.trans (Quoted.textFrom_eq_clauseAt hlt), hbefore, hpath.symm⟩
    obtain ⟨hside, -, d, gap, hd, -, -, hrest'⟩ := h.exists_isTail
    exact ⟨hside, d, gap, stem, _, hd, List.append_cancel_left (hv.symm.trans hrest')⟩

/-- Whether a clause begins at a place can be seen from the first two runs of the text after it. -/
theorem beginsClause_iff {here : Cursor} : here.BeginsClause ↔
    isWordSide here.prev = false ∧ 1 < (Quoted.ofText here.rest).size ∧
      beforeFrom? ((Quoted.ofText here.rest).run 0) = some [] ∧
      ".js".toList <:+ (Quoted.ofText here.rest).run 1 := by
  have hself : here.past [] here.rest = here := past_nil rfl
  have htext : here.rest = (Quoted.ofText here.rest).textFrom 0 := (Quoted.text_ofText _).symm
  constructor
  · intro h
    refine ⟨h.1, (beginsClause_past_iff (Nat.zero_le _) h.1 htext rfl unquoted_nil).1 ?_⟩
    rwa [hself]
  · rintro ⟨hprev, h⟩
    rw [← hself]
    exact (beginsClause_past_iff (Nat.zero_le _) hprev htext rfl unquoted_nil).2 h

instance : DecidablePred BeginsClause := fun _ => decidable_of_iff _ beginsClause_iff.symm

/-! ### Counting places -/

section

variable {P : Cursor → Bool} {here : Cursor} {u r : List Char}

/-- Places where nothing is counted do not matter. -/
theorem countP_onward_past (hrest : here.rest = u ++ r)
    (hnone : ∀ v w, u = v ++ w → w ≠ [] → P (here.past v (w ++ r)) = false) :
    (onward (u ++ r) here).countP P = (onward r (here.past u r)).countP P := by
  induction u generalizing here with
  | nil =>
    rw [past_nil (show here.rest = r from hrest)]
    rfl
  | cons c u ih =>
    have hhere : P here = false := by
      have hfirst := hnone [] (c :: u) rfl (List.cons_ne_nil c u)
      rwa [past_nil (show here.rest = c :: u ++ r from hrest)] at hfirst
    have hlater : ∀ v w, u = v ++ w → w ≠ [] →
        P ((here.past [c] (u ++ r)).past v (w ++ r)) = false := by
      intro v w huv hw
      rw [past_past]
      exact hnone (c :: v) w (congrArg (c :: ·) huv) hw
    rw [List.cons_append, onward, List.countP_cons_of_neg (by rw [hhere]; decide), next_eq_past,
      ih rfl hlater, past_past]
    rfl

/-- A single place where something is counted counts once. -/
theorem countP_onward_past_unique {v₀ w₀ : List Char} (hrest : here.rest = u ++ r)
    (hu : u = v₀ ++ w₀) (hw₀ : w₀ ≠ [])
    (hone : ∀ v w, u = v ++ w → w ≠ [] → (P (here.past v (w ++ r)) = true ↔ v = v₀)) :
    (onward (u ++ r) here).countP P = (onward r (here.past u r)).countP P + 1 := by
  obtain ⟨c, w, rfl⟩ := List.exists_cons_of_ne_nil hw₀
  -- The text falls in three: what is before the place, its character, and what is after it.
  have hbefore : ∀ v w', v₀ = v ++ w' → w' ≠ [] →
      P (here.past v (w' ++ (c :: w ++ r))) = false := by
    intro v w' hv hw'
    rw [← Bool.not_eq_true]
    intro hP
    have hcut : u = v ++ (w' ++ c :: w) := by rw [hu, hv, List.append_assoc]
    rw [← List.append_assoc, hone v _ hcut (by simp [hw'])] at hP
    rw [hP] at hv
    exact hw' (List.self_eq_append_right.1 hv)
  have hhere : P (here.past v₀ (c :: (w ++ r))) = true := (hone v₀ _ hu hw₀).2 rfl
  have hafter : ∀ v w', w = v ++ w' → w' ≠ [] →
      P (((here.past v₀ (c :: (w ++ r))).past [c] (w ++ r)).past v (w' ++ r)) = false := by
    intro v w' hv hw'
    rw [past_past, past_past, ← Bool.not_eq_true]
    intro hP
    have hcut : u = v₀ ++ ([c] ++ v) ++ w' := by
      rw [hu, hv, List.append_assoc, List.append_assoc]
      rfl
    rw [hone _ _ hcut hw'] at hP
    exact absurd (List.self_eq_append_right.1 hP.symm) (List.cons_ne_nil c v)
  have hrest' : here.rest = v₀ ++ (c :: w ++ r) := by rw [hrest, hu, List.append_assoc]
  rw [hu, List.append_assoc, countP_onward_past hrest' hbefore, List.cons_append, onward,
    List.countP_cons_of_pos hhere, next_eq_past, countP_onward_past rfl hafter, past_past,
    past_past]
  rfl

end

end Cursor

/-- How many clauses with the suffix a text has. -/
def clauseCount (text : List Char) : Nat :=
  (Cursor.all text).countP fun here => here.BeginsClause

namespace Quoted

variable {T : Quoted} {k : Nat} {here : Cursor}

/-- One for the head of a clause that is read, and nothing for other runs. -/
def siteAt (T : Quoted) (k : Nat) : Nat := if (T.readingAt? k).isSome then 1 else 0

theorem siteAt_of_none (h : T.readingAt? k = none) : T.siteAt k = 0 := by
  rw [siteAt, h]
  rfl

theorem siteAt_of_some {r : Reading} (h : T.readingAt? k = some r) : T.siteAt k = 1 := by
  rw [siteAt, h]
  rfl

theorem countP_textFrom (hk : k < T.size) (hprev : isWordSide here.prev = false)
    (hrest : here.rest = T.textFrom k) :
    (Cursor.onward (T.textFrom k) here).countP (fun p => p.BeginsClause) =
      (Cursor.onward (T.textFrom (k + 1))
        (here.past (T.run k ++ [T.quote k]) (T.textFrom (k + 1)))).countP
          (fun p => p.BeginsClause) + T.siteAt k := by
  have htext : T.textFrom k = T.run k ++ [T.quote k] ++ T.textFrom (k + 1) := by
    rw [textFrom_of_lt hk, List.append_assoc]
    rfl
  have hbegins : ∀ v w, T.run k ++ [T.quote k] = v ++ w → w ≠ [] →
      ((here.past v (w ++ T.textFrom (k + 1))).BeginsClause ↔
        k + 1 < T.size ∧ beforeFrom? (T.run k) = some v ∧ ".js".toList <:+ T.run (k + 1)) := by
    intro v w hvw hw
    have hv : here.rest = v ++ (w ++ T.textFrom (k + 1)) := by
      rw [hrest, htext, hvw, List.append_assoc]
    exact Cursor.beginsClause_past_iff (Nat.le_of_lt hk) hprev hrest hv
      ((T.unquoted_run k).of_append_eq hvw hw)
  rw [htext] at hrest ⊢
  cases hr : T.readingAt? k with
  | none =>
    -- A clause that begins in this run would be read.
    rw [siteAt_of_none hr, Nat.add_zero]
    refine Cursor.countP_onward_past hrest fun v w hvw hw => ?_
    rw [decide_eq_false_iff_not, hbegins v w hvw hw]
    rintro ⟨hlt, hbefore, hsuffix⟩
    obtain ⟨r, hr'⟩ := exists_readingAt?_iff.2 ⟨hlt, endsInFrom_iff.2 ⟨v, hbefore⟩, hsuffix⟩
    rw [hr] at hr'
    cases hr'
  | some r =>
    rw [siteAt_of_some hr]
    obtain ⟨hlt, hfrom, hsuffix⟩ := exists_readingAt?_iff.1 ⟨r, hr⟩
    obtain ⟨before, hbefore⟩ := endsInFrom_iff.1 hfrom
    obtain ⟨-, gap, -, hrun⟩ := beforeFrom?_eq_some.1 hbefore
    have hcut : T.run k ++ [T.quote k] = before ++ ("from".toList ++ gap ++ [T.quote k]) := by
      rw [hrun, List.append_assoc, List.append_assoc, List.append_assoc]
    -- One begins where the `from` stands with which the run ends, and nowhere else.
    refine Cursor.countP_onward_past_unique hrest hcut (by simp) fun v w hvw hw => ?_
    rw [decide_eq_true_iff, hbegins v w hvw hw]
    constructor
    · rintro ⟨-, hv, -⟩
      exact Option.some.inj (hv.symm.trans hbefore)
    · rintro rfl
      exact ⟨hlt, hbefore, hsuffix⟩

/-- In the last run no clause begins. -/
theorem countP_textFrom_size (hprev : isWordSide here.prev = false)
    (hrest : here.rest = T.textFrom T.size) :
    (Cursor.onward (T.textFrom T.size) here).countP (fun p => p.BeginsClause) = 0 := by
  have hnone : ∀ v w, T.run T.size = v ++ w → ¬ (here.past v (w ++ [])).BeginsClause := by
    intro v w hvw hbegins
    have hv : here.rest = v ++ (w ++ []) := by
      rw [hrest, textFrom_size, hvw, List.append_nil]
    have hunquoted : Unquoted v := (unquoted_append.1 (hvw ▸ T.unquoted_run T.size)).1
    have hread := (Cursor.beginsClause_past_iff (Nat.le_refl _) hprev hrest hv hunquoted).1 hbegins
    exact absurd hread.1 (Nat.not_lt.2 (Nat.le_succ _))
  have hend : ¬ (here.past (T.run T.size) []).BeginsClause :=
    hnone (T.run T.size) [] (List.append_nil _).symm
  rw [textFrom_size, ← List.append_nil (T.run T.size)] at hrest ⊢
  rw [Cursor.countP_onward_past hrest fun v w hvw _ => decide_eq_false (hnone v w hvw)]
  exact List.countP_eq_zero.2 fun p hp => by
    rw [List.mem_singleton.1 hp, decide_eq_true_iff]
    exact hend

/-- The clauses of a text are those that are read. -/
theorem clauseCount_text (T : Quoted) :
    clauseCount T.text = ∑ k ∈ Finset.range T.size, T.siteAt k := by
  have key : ∀ n k, k + n = T.size → ∀ here : Cursor, isWordSide here.prev = false →
      here.rest = T.textFrom k →
      (Cursor.onward (T.textFrom k) here).countP (fun p => p.BeginsClause) =
        ∑ j ∈ Finset.Ico k T.size, T.siteAt j := by
    intro n
    -- By the number of quotes that are left.
    induction n with
    | zero =>
      intro k hk here hprev hrest
      obtain rfl : k = T.size := hk
      rw [countP_textFrom_size hprev hrest, Finset.Ico_self, Finset.sum_empty]
    | succ n ih =>
      intro k hk here hprev hrest
      have hlt : k < T.size := by omega
      have hquote :=
        Cursor.isWordSide_past_quote (T.isQuote_quote k) here (T.run k) (T.textFrom (k + 1))
      rw [countP_textFrom hlt hprev hrest, ih (k + 1) (by omega) _ hquote rfl,
        Finset.sum_eq_sum_Ico_succ_bot hlt, Nat.add_comm]
  rw [Finset.range_eq_Ico]
  exact key T.size 0 (Nat.zero_add _) _ rfl T.textFrom_zero.symm

theorem clauseCount_eq_sum (text : List Char) :
    clauseCount text = ∑ k ∈ Finset.range (ofText text).size, (ofText text).siteAt k := by
  rw [← clauseCount_text, text_ofText]

theorem clauseCount_eq_zero_iff {text : List Char} :
    clauseCount text = 0 ↔ ∀ k, (ofText text).readingAt? k = none := by
  rw [clauseCount_eq_sum, Finset.sum_eq_zero_iff]
  constructor
  · intro h k
    cases hr : (ofText text).readingAt? k with
    | none => rfl
    | some r =>
      have hk := h k (Finset.mem_range.2 (Nat.lt_of_succ_lt (lt_size_of_readingAt? hr)))
      rw [siteAt_of_some hr] at hk
      cases hk
  · intro h k _
    exact siteAt_of_none (h k)

/-! ### What a revision takes away -/

section

variable (f : Revision) (loss : Clause → Nat)

/-- What a revision takes from the clause that begins with the run of that number. -/
def lossAt (T : Quoted) (k : Nat) : Nat :=
  if (T.revisedAt f k).isSome then loss (T.clauseAt k) else 0

end

variable {f : Revision} {loss : Clause → Nat} {c : Clause}

theorem lossAt_of_none (h : T.revisedAt f k = none) : T.lossAt f loss k = 0 := by
  rw [lossAt, h]
  rfl

theorem lossAt_of_some (h : T.revisedAt f k = some c) :
    T.lossAt f loss k = loss (T.clauseAt k) := by
  rw [lossAt, h]
  rfl

/-- A revision that takes so much from each of its clauses takes the sum of that from a text. -/
theorem length_revise_le
    (hloss : ∀ c c', f.revise? c = some c' → c'.text.length + loss c ≤ c.text.length) (T : Quoted) :
    (T.revise f).text.length + ∑ k ∈ Finset.range T.size, T.lossAt f loss k ≤ T.text.length := by
  have key : ∀ k ≤ T.size, T.revisedBefore f k = none →
      ((T.revise f).textFrom k).length + ∑ j ∈ Finset.Ico k T.size, T.lossAt f loss j ≤
        (T.textFrom k).length := by
    refine T.walk f ?last ?pass ?clause
    case last =>
      intro hbefore
      rw [textFrom_revise_size hbefore, textFrom_size, Finset.Ico_self, Finset.sum_empty]
      exact Nat.le_refl _
    case pass =>
      intro k hk hat ih hbefore
      have htail := ih hat
      rw [textFrom_revise_over hk hbefore hat, textFrom_of_lt hk,
        Finset.sum_eq_sum_Ico_succ_bot hk, lossAt_of_none hat]
      simp only [List.length_append, List.length_cons]
      omega
    case clause =>
      intro k c hat ih hbefore
      have hlt := lt_size_of_revisedAt hat
      have hnext := revisedAt_succ hat
      have htail : ((T.revise f).textFrom (k + 2)).length +
          ∑ j ∈ Finset.Ico (k + 1 + 1) T.size, T.lossAt f loss j ≤ (T.textFrom (k + 2)).length :=
        ih hnext
      have hclause := hloss _ _ (revise?_of_revisedAt hat)
      rw [textFrom_revise_clause hat, textFrom_eq_clauseAt hlt,
        Finset.sum_eq_sum_Ico_succ_bot (Nat.lt_of_succ_lt hlt), lossAt_of_some hat,
        Finset.sum_eq_sum_Ico_succ_bot hlt, lossAt_of_none hnext, List.length_append,
        List.length_append]
      omega
  rw [Finset.range_eq_Ico]
  exact key 0 (Nat.zero_le _) rfl

end Quoted

end ImportSuffix
