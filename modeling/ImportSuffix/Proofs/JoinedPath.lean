import ImportSuffix.Volume.Path

/-!
# The names in a joined path

Joining a path and the name of an entry adds that name to the names of the path and nothing else
(`names_join`); the new path does not end in a slash, and it is absolute only if the old one is. So
the names in a path tell how it was joined (`names_joinAll`).
-/

namespace ImportSuffix.Path

open Text (Bytes)

/-! ### Names of entries -/

/-- That a name in a path stands for the entry of that name: it is not too long and is not one of
the names for a directory itself and the one around it. -/
structure PlainName (name : Name) : Prop where
  length_le : name.length ≤ maxNameLength
  ne_here : name ≠ here
  ne_up : name ≠ up

/-- What the name of an entry has to be. -/
structure EntryName (name : Name) : Prop extends PlainName name where
  ne_nil : name ≠ []
  slash_notMem : slash ∉ name
  zero_notMem : 0 ∉ name

theorem isEntryName_iff {name : Name} : isEntryName name = true ↔ EntryName name := by
  simp only [isEntryName, Bool.and_eq_true, bne_iff_ne, Bool.not_eq_true',
    List.isEmpty_eq_false_iff, List.contains_eq_mem, decide_eq_true_eq, decide_eq_false_iff_not]
  constructor
  · intro h
    exact ⟨⟨h.1.1.1.1.2, h.1.2, h.2⟩, h.1.1.1.1.1, h.1.1.1.2, h.1.1.2⟩
  · intro h
    exact ⟨⟨⟨⟨⟨h.ne_nil, h.length_le⟩, h.slash_notMem⟩, h.zero_notMem⟩, h.ne_here⟩, h.ne_up⟩

/-! ### Splitting -/

theorem split_append_slash (a b : Bytes) : split (a ++ slash :: b) = split a ++ split b := by
  induction a with
  | nil => simp [split]
  | cons c a ih =>
    rw [List.cons_append, split, split]
    by_cases hc : c = slash
    · simp [hc, ih]
    · rw [if_neg hc, if_neg hc, ih]
      cases hs : split a with
      | nil => exact absurd hs (split_ne_nil a)
      | cons piece pieces => rfl

theorem split_eq_singleton {piece : Bytes} (h : slash ∉ piece) : split piece = [piece] := by
  induction piece with
  | nil => rfl
  | cons c piece ih =>
    rw [List.mem_cons, not_or] at h
    rw [split, if_neg (Ne.symm h.1), ih h.2]

theorem names_append_slash (a b : Bytes) : names (a ++ slash :: b) = names a ++ names b := by
  simp only [names, split_append_slash, List.filter_append]

variable {path : Bytes} {name : Name}

theorem EntryName.names_eq (h : EntryName name) : names name = [name] := by
  simp [names, split_eq_singleton h.slash_notMem, h.ne_nil]

/-! ### Joining one name -/

theorem exists_of_endsInSlash (h : endsInSlash path = true) : ∃ p, path = p ++ [slash] := by
  rw [endsInSlash, beq_iff_eq] at h
  obtain ⟨p, hp⟩ := List.getLast?_eq_some_iff.1 h
  exact ⟨p, hp⟩

theorem names_join (path : Bytes) (h : EntryName name) :
    names (join path name) = names path ++ [name] := by
  rw [join]
  split
  · next hslash =>
    obtain ⟨p, rfl⟩ := exists_of_endsInSlash hslash
    -- The slash at the end has nothing but an empty piece behind it.
    have hnames : names (p ++ [slash]) = names p := by
      rw [names_append_slash]
      simp [names, split]
    rw [hnames, List.append_assoc, List.singleton_append, names_append_slash, h.names_eq]
  · rw [names_append_slash, h.names_eq]

theorem endsInSlash_join (path : Bytes) (h : EntryName name) :
    endsInSlash (join path name) = false := by
  obtain ⟨init, last, rfl⟩ := (List.eq_nil_or_concat name).resolve_left h.ne_nil
  have hlast : last ≠ slash := fun hl => h.slash_notMem (by simp [hl])
  have hend (p : Bytes) : endsInSlash (p ++ [last]) = false := by simp [endsInSlash, hlast]
  rw [List.concat_eq_append, join]
  split
  · rw [← List.append_assoc]
    exact hend _
  · rw [← List.cons_append, ← List.append_assoc]
    exact hend _

theorem isAbsolute_join (h : path ≠ []) (name : Name) :
    isAbsolute (join path name) = isAbsolute path := by
  obtain ⟨b, rest, rfl⟩ := List.exists_cons_of_ne_nil h
  rw [join]
  split <;> rfl

theorem join_ne_nil (h : path ≠ []) (name : Name) : join path name ≠ [] := by
  rw [join]
  split <;> simp [h]

theorem zero_notMem_join (hpath : 0 ∉ path) (h : EntryName name) : 0 ∉ join path name := by
  have hzero := h.zero_notMem
  rw [join]
  split <;> simp [hpath, hzero, slash]

/-! ### Joining several names -/

theorem joinAll_concat (path : Bytes) (below : List Name) (name : Name) :
    joinAll path (below ++ [name]) = join (joinAll path below) name := by
  induction below generalizing path with
  | nil => simp
  | cons first below ih => rw [List.cons_append, joinAll_cons, joinAll_cons, ih]

variable {below : List Name}

theorem names_joinAll (path : Bytes) (h : ∀ name ∈ below, EntryName name) :
    names (joinAll path below) = names path ++ below := by
  induction below generalizing path with
  | nil => simp
  | cons name below ih =>
    rw [List.forall_mem_cons] at h
    rw [joinAll_cons, ih _ h.2, names_join path h.1, List.append_assoc, List.singleton_append]

end ImportSuffix.Path
