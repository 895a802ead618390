import ImportSuffix.Proofs.Revision
import ImportSuffix.Proofs.Wording

/-!
# Clauses with the suffix

A clause has the suffix if its head ends in the word `from` and white space and its path in `.js`.
It is read in one of two ways, as the tail of an import statement or as a clause of its own
(`Clause.reading?`), and three revisions go by that reading:

* `Revision.ownClauses` strips the clauses of their own and takes import statements as they are;
* `Revision.statements` strips the import statements and nothing else;
* `Revision.stripping` strips both.

A stripped clause still ends in `from` and white space before its path (`beforeFrom?_strippedOwn`,
`endsInFrom_strippedStatement`), and the characters of its head that are not white space are the
same (`squeeze_strippedOwn`, `squeeze_strippedStatement`).
-/

namespace ImportSuffix

open Text
open Cursor (isWordSide)

/-- What a clause with the suffix is, in the parts that are put together again without it. -/
inductive Reading
  /-- A clause of its own: what stands before `from`, and the path without the suffix. -/
  | own (before stem : List Char)
  /-- The tail of an import statement: what stands before `import`, what stands between `import` and
  `from`, and the path without the suffix. -/
  | statement (lead between stem : List Char)
  deriving Repr, DecidableEq

namespace Clause

/-- How a clause is read, if it has the suffix. -/
def reading? (c : Clause) : Option Reading :=
  match beforeFrom? c.head, beforeSuffix? c.path with
  | some before, some stem =>
    match statementIn? before with
    | none => some (.own before stem)
    | some (lead, between) => some (.statement lead between stem)
  | _, _ => none

/-- A clause of its own without the suffix: one space before the path, and the opening quote on both
sides of it. -/
def strippedOwn (c : Clause) (before stem : List Char) : Clause :=
  ⟨before ++ "from ".toList, c.opening, stem, c.opening⟩

/-- The tail of an import statement without the suffix: one space around the import clause and
before the path, and single quotes. -/
def strippedStatement (lead between stem : List Char) : Clause :=
  ⟨lead ++ "import ".toList ++ clauseIn between ++ " from ".toList, '\'', stem, '\''⟩

section

variable {c c' : Clause} {r : Reading} {before stem lead between : List Char}

theorem reading?_eq_own :
    c.reading? = some (.own before stem) ↔
      beforeFrom? c.head = some before ∧ c.path = stem ++ ".js".toList ∧
        statementIn? before = none := by
  rw [← beforeSuffix?_eq_some, reading?]
  constructor
  · intro h
    split at h
    · next b s hb hs =>
      split at h
      · next hnone =>
        obtain ⟨rfl, rfl⟩ := Reading.own.inj (Option.some.inj h)
        exact ⟨hb, hs, hnone⟩
      · cases h
    · cases h
  · rintro ⟨hb, hs, hnone⟩
    rw [hb, hs]
    simp only [hnone]

theorem reading?_eq_statement :
    c.reading? = some (.statement lead between stem) ↔
      ∃ before, beforeFrom? c.head = some before ∧ c.path = stem ++ ".js".toList ∧
        statementIn? before = some (lead, between) := by
  rw [← beforeSuffix?_eq_some, reading?]
  constructor
  · intro h
    split at h
    · next b s hb hs =>
      split at h
      · cases h
      · next l i hsome =>
        obtain ⟨rfl, rfl, rfl⟩ := Reading.statement.inj (Option.some.inj h)
        exact ⟨b, hb, hs, hsome⟩
    · cases h
  · rintro ⟨before, hb, hs, hsome⟩
    rw [hb, hs]
    simp only [hsome]

/-- The clauses that are read are those that have the suffix. -/
theorem exists_reading?_iff :
    (∃ r, c.reading? = some r) ↔ EndsInFrom c.head ∧ ".js".toList <:+ c.path := by
  rw [endsInFrom_iff]
  constructor
  · rintro ⟨⟨before, stem⟩ | ⟨lead, between, stem⟩, h⟩
    · obtain ⟨hb, hs, -⟩ := reading?_eq_own.1 h
      exact ⟨⟨before, hb⟩, stem, hs.symm⟩
    · obtain ⟨before, hb, hs, -⟩ := reading?_eq_statement.1 h
      exact ⟨⟨before, hb⟩, stem, hs.symm⟩
  · rintro ⟨⟨before, hb⟩, stem, hs⟩
    cases hst : statementIn? before with
    | none => exact ⟨_, reading?_eq_own.2 ⟨hb, hs.symm, hst⟩⟩
    | some p => exact ⟨_, reading?_eq_statement.2 ⟨before, hb, hs.symm, hst⟩⟩

/-- A clause that follows on the path of a clause with the suffix has no suffix to lose: its head
does not end in white space. -/
theorem reading?_of_head_eq {d : Clause} (h : c.reading? = some r) (hd : d.head = c.path) :
    d.reading? = none := by
  cases hr : d.reading? with
  | none => rfl
  | some r' =>
    have hpath : ".js".toList <:+ c.path := (exists_reading?_iff.1 ⟨r, h⟩).2
    have hfrom : EndsInFrom d.head := (exists_reading?_iff.1 ⟨r', hr⟩).1
    rw [hd] at hfrom
    exact absurd hfrom (not_endsInFrom_of_suffix hpath)

/-! ### A clause of its own -/

theorem path_of_own (h : c.reading? = some (.own before stem)) : c.path = stem ++ ".js".toList :=
  (reading?_eq_own.1 h).2.1

theorem head_of_own (h : c.reading? = some (.own before stem)) :
    isWordSide before.getLast? = false ∧
      ∃ gap, IsGap gap ∧ c.head = before ++ "from".toList ++ gap :=
  beforeFrom?_eq_some.1 (reading?_eq_own.1 h).1

/-- Without the suffix a clause of its own has the same part before `from`. -/
theorem beforeFrom?_strippedOwn (h : c.reading? = some (.own before stem)) :
    beforeFrom? (c.strippedOwn before stem).head = some before := by
  refine beforeFrom?_eq_some.2 ⟨(head_of_own h).1, " ".toList, by decide, ?_⟩
  rw [strippedOwn, List.append_assoc]
  rfl

theorem wellFormed_strippedOwn (hc : c.WellFormed) (h : c.reading? = some (.own before stem)) :
    (c.strippedOwn before stem).WellFormed := by
  obtain ⟨-, gap, -, hhead⟩ := head_of_own h
  have hbefore := hc.head
  rw [hhead, List.append_assoc, unquoted_append] at hbefore
  have hstem := hc.path
  rw [path_of_own h, unquoted_append] at hstem
  exact ⟨unquoted_append.2 ⟨hbefore.1, by decide⟩, hc.opening, hstem.1, hc.opening⟩

theorem squeeze_strippedOwn (h : c.reading? = some (.own before stem)) :
    squeeze (c.strippedOwn before stem).head = squeeze c.head := by
  obtain ⟨-, gap, hgap, hhead⟩ := head_of_own h
  have hfrom : squeeze "from ".toList = squeeze "from".toList := by decide
  rw [hhead, strippedOwn, squeeze_append, squeeze_append, squeeze_append, squeeze_eq_nil hgap.2,
    List.append_nil, hfrom]

/-- At least three characters less, those of the suffix. -/
theorem length_strippedOwn (h : c.reading? = some (.own before stem)) :
    (c.strippedOwn before stem).text.length + 3 ≤ c.text.length := by
  obtain ⟨-, gap, hgap, hhead⟩ := head_of_own h
  have hpos : 0 < gap.length := List.length_pos_iff.2 hgap.1
  have hfrom : "from".toList.length = 4 := rfl
  have hfrom' : "from ".toList.length = 5 := rfl
  have hjs : ".js".toList.length = 3 := rfl
  simp only [text, strippedOwn, hhead, path_of_own h, List.length_append, List.length_cons,
    List.length_nil, hfrom, hfrom', hjs]
  omega

/-! ### An import statement -/

theorem path_of_statement (h : c.reading? = some (.statement lead between stem)) :
    c.path = stem ++ ".js".toList := by
  obtain ⟨-, -, hpath, -⟩ := reading?_eq_statement.1 h
  exact hpath

theorem head_of_statement (h : c.reading? = some (.statement lead between stem)) :
    holdsClause between = true ∧ ∃ gap, IsGap gap ∧
      c.head = lead ++ "import".toList ++ between ++ "from".toList ++ gap := by
  obtain ⟨before, hbefore, -, hst⟩ := reading?_eq_statement.1 h
  obtain ⟨-, gap, hgap, hhead⟩ := beforeFrom?_eq_some.1 hbefore
  obtain ⟨rfl, -, -, hroom⟩ := of_statementIn? hst
  exact ⟨hroom, gap, hgap, hhead⟩

theorem endsInFrom_strippedStatement :
    EndsInFrom (strippedStatement lead between stem).head := by
  refine endsInFrom_iff.2 ⟨lead ++ "import ".toList ++ clauseIn between ++ " ".toList,
    beforeFrom?_eq_some.2 ⟨?_, " ".toList, by decide, ?_⟩⟩
  · rw [List.getLast?_append_of_ne_nil _ (by decide)]
    decide
  · rw [strippedStatement, List.append_assoc _ " ".toList, List.append_assoc _ (_ ++ _)]
    rfl

theorem wellFormed_strippedStatement (hc : c.WellFormed)
    (h : c.reading? = some (.statement lead between stem)) :
    (strippedStatement lead between stem).WellFormed := by
  obtain ⟨-, gap, -, hhead⟩ := head_of_statement h
  have hparts := hc.head
  simp only [hhead, unquoted_append] at hparts
  obtain ⟨⟨⟨⟨hlead, -⟩, hbetween⟩, -⟩, -⟩ := hparts
  have hstem := hc.path
  rw [path_of_statement h, unquoted_append] at hstem
  refine ⟨?_, rfl, hstem.1, rfl⟩
  have himport : Unquoted "import ".toList := by decide
  have hfrom : Unquoted " from ".toList := by decide
  simp only [strippedStatement, unquoted_append]
  exact ⟨⟨⟨hlead, himport⟩, hbetween.of_sublist (clauseIn_sublist between)⟩, hfrom⟩

theorem squeeze_strippedStatement (h : c.reading? = some (.statement lead between stem)) :
    squeeze (strippedStatement lead between stem).head = squeeze c.head := by
  obtain ⟨-, gap, hgap, hhead⟩ := head_of_statement h
  have himport : squeeze "import ".toList = squeeze "import".toList := by decide
  have hfrom : squeeze " from ".toList = squeeze "from".toList := by decide
  simp only [hhead, strippedStatement, squeeze_append, squeeze_clauseIn, squeeze_eq_nil hgap.2,
    List.append_nil, himport, hfrom]

/-- At least two characters less: the suffix is gone, and a space after `import` may be new. -/
theorem length_strippedStatement (h : c.reading? = some (.statement lead between stem)) :
    (strippedStatement lead between stem).text.length + 2 ≤ c.text.length := by
  obtain ⟨hroom, gap, hgap, hhead⟩ := head_of_statement h
  have hpos : 0 < gap.length := List.length_pos_iff.2 hgap.1
  have hclause := length_clauseIn hroom
  have himport : "import".toList.length = 6 := rfl
  have himport' : "import ".toList.length = 7 := rfl
  have hfrom : "from".toList.length = 4 := rfl
  have hfrom' : " from ".toList.length = 6 := rfl
  have hjs : ".js".toList.length = 3 := rfl
  simp only [text, strippedStatement, hhead, path_of_statement h, List.length_append,
    List.length_cons, List.length_nil, himport, himport', hfrom, hfrom', hjs]
  omega

end

/-! ### What all revisions have in common -/

/-- That a clause with the suffix stays as it is or is stripped according to its reading. -/
inductive StrippedTo (c : Clause) : Clause → Prop
  | same {r : Reading} : c.reading? = some r → StrippedTo c c
  | own {before stem : List Char} : c.reading? = some (.own before stem) →
    StrippedTo c (c.strippedOwn before stem)
  | statement {lead between stem : List Char} : c.reading? = some (.statement lead between stem) →
    StrippedTo c (strippedStatement lead between stem)

namespace StrippedTo

variable {c c' : Clause}

theorem exists_reading? (h : c.StrippedTo c') : ∃ r, c.reading? = some r := by
  cases h with
  | same hr => exact ⟨_, hr⟩
  | own hr => exact ⟨_, hr⟩
  | statement hr => exact ⟨_, hr⟩

theorem wellFormed (h : c.StrippedTo c') (hc : c.WellFormed) : c'.WellFormed := by
  cases h with
  | same hr => exact hc
  | own hr => exact wellFormed_strippedOwn hc hr
  | statement hr => exact wellFormed_strippedStatement hc hr

/-- The head still ends in `from` and white space. -/
theorem endsInFrom (h : c.StrippedTo c') : EndsInFrom c'.head := by
  cases h with
  | same hr => exact (exists_reading?_iff.1 ⟨_, hr⟩).1
  | own hr => exact endsInFrom_iff.2 ⟨_, beforeFrom?_strippedOwn hr⟩
  | statement hr => exact endsInFrom_strippedStatement

theorem squeeze_head (h : c.StrippedTo c') : squeeze c'.head = squeeze c.head := by
  cases h with
  | same hr => rfl
  | own hr => exact squeeze_strippedOwn hr
  | statement hr => exact squeeze_strippedStatement hr

theorem path (h : c.StrippedTo c') : c'.path = c.path ∨ c.path = c'.path ++ ".js".toList := by
  cases h with
  | same hr => exact .inl rfl
  | own hr => exact .inr (path_of_own hr)
  | statement hr => exact .inr (path_of_statement hr)

end StrippedTo

end Clause

/-! ### The revisions -/

namespace Revision

/-- A revision that goes by the reading of a clause, and keeps or strips it. -/
def byReading (make : Clause → Reading → Option Clause)
    (hmake : ∀ c c' r, c.reading? = some r → make c r = some c' → c.StrippedTo c') :
    Revision where
  revise? c := c.reading?.bind (make c)
  wellFormed hc h := by
    obtain ⟨r, hr, hm⟩ := Option.bind_eq_some_iff.1 h
    exact (hmake _ _ _ hr hm).wellFormed hc
  apart h hd := by
    obtain ⟨r, hr, -⟩ := Option.bind_eq_some_iff.1 h
    rw [Clause.reading?_of_head_eq hr hd]
    rfl

/-- Strips the clauses of their own. Import statements are taken as they are. -/
def ownClauses : Revision :=
  byReading
    (fun c r => match r with
      | .own before stem => some (c.strippedOwn before stem)
      | .statement _ _ _ => some c)
    (by
      intro c c' r hr h
      cases r with
      | own before stem => exact Option.some.inj h ▸ .own hr
      | statement lead between stem => exact Option.some.inj h ▸ .same hr)

/-- Strips the import statements. -/
def statements : Revision :=
  byReading
    (fun _ r => match r with
      | .own _ _ => none
      | .statement lead between stem => some (Clause.strippedStatement lead between stem))
    (by
      intro c c' r hr h
      cases r with
      | own before stem => cases h
      | statement lead between stem => exact Option.some.inj h ▸ .statement hr)

/-- Strips all clauses with the suffix. -/
def stripping : Revision :=
  byReading
    (fun c r => match r with
      | .own before stem => some (c.strippedOwn before stem)
      | .statement lead between stem => some (Clause.strippedStatement lead between stem))
    (by
      intro c c' r hr h
      cases r with
      | own before stem => exact Option.some.inj h ▸ .own hr
      | statement lead between stem => exact Option.some.inj h ▸ .statement hr)

section

variable {c c' : Clause} {before stem lead between : List Char}

theorem ownClauses_own (h : c.reading? = some (.own before stem)) :
    ownClauses.revise? c = some (c.strippedOwn before stem) := by
  simp [ownClauses, byReading, h]

theorem ownClauses_statement (h : c.reading? = some (.statement lead between stem)) :
    ownClauses.revise? c = some c := by
  simp [ownClauses, byReading, h]

theorem statements_own (h : c.reading? = some (.own before stem)) :
    statements.revise? c = none := by
  simp [statements, byReading, h]

theorem statements_statement (h : c.reading? = some (.statement lead between stem)) :
    statements.revise? c = some (Clause.strippedStatement lead between stem) := by
  simp [statements, byReading, h]

end

/-- A revision that keeps or strips the clauses that it is for. -/
def Strips (f : Revision) : Prop :=
  ∀ {c c' : Clause}, f.revise? c = some c' → c.StrippedTo c'

theorem strips_byReading {make : Clause → Reading → Option Clause}
    {hmake : ∀ c c' r, c.reading? = some r → make c r = some c' → c.StrippedTo c'} :
    (byReading make hmake).Strips := by
  intro c c' h
  obtain ⟨r, hr, hm⟩ := Option.bind_eq_some_iff.1 h
  exact hmake c c' r hr hm

theorem strips_ownClauses : ownClauses.Strips := strips_byReading

theorem strips_statements : statements.Strips := strips_byReading

theorem strips_stripping : stripping.Strips := strips_byReading

end Revision

end ImportSuffix
