import ImportSuffix.Volume.Path

/-!
# Trees of files

A node of a volume is a file with its bytes, a symbolic link with the path that it leads to, or a
directory with its entries in the order in which it lists them. Nodes are reached by location and
changed by `update`, which replaces the node at one location and keeps everything beside it
(`get?_update_self`, `get?_update_of_not_prefix`).

A directory has each name at most once, and only names that a path can have. `Node.WellFormed` says
so for every directory of a tree, and `update` keeps it if the change does.
-/

namespace ImportSuffix

/-- A node of a volume. -/
inductive Node
  /-- A file, which may be closed to writing. -/
  | file (content : ByteArray) (writable : Bool)
  /-- A symbolic link. -/
  | link (target : Text.Bytes)
  /-- A directory, which may be closed to listing. -/
  | dir (listable : Bool) (entries : List (Name × Node))
  deriving Inhabited

/-! ### Entries of a directory -/

/-- The entries of a directory. -/
abbrev Entries := List (Name × Node)

namespace Entries

/-- The names of the entries. -/
def names (es : Entries) : List Name := es.map Prod.fst

/-- The node of that name. -/
def find? (es : Entries) (name : Name) : Option Node := es.lookup name

/-- The entries with a node put under a name: in the place of the node that was there, or at the
end. -/
def put (es : Entries) (name : Name) (node : Node) : Entries :=
  match es with
  | [] => [(name, node)]
  | (k, n) :: rest => if k = name then (k, node) :: rest else (k, n) :: put rest name node

/-- The entries without that name. -/
def erase (es : Entries) (name : Name) : Entries :=
  es.filter (·.1 != name)

@[simp] theorem find?_nil (name : Name) : find? [] name = none := rfl

theorem find?_cons (k : Name) (n : Node) (rest : Entries) (name : Name) :
    find? ((k, n) :: rest) name = if name = k then some n else find? rest name := by
  rw [find?, List.lookup_cons]
  by_cases h : name = k
  · simp [h]
  · rw [beq_eq_false_iff_ne.2 h, if_neg h]
    rfl

theorem find?_put_self (es : Entries) (name : Name) (node : Node) :
    (es.put name node).find? name = some node := by
  induction es with
  | nil => simp [put, find?_cons]
  | cons e rest ih =>
    obtain ⟨k, n⟩ := e
    by_cases h : k = name
    · simp [put, h, find?_cons]
    · simp [put, h, find?_cons, Ne.symm h, ih]

theorem find?_put_of_ne (es : Entries) {name other : Name} (node : Node) (h : other ≠ name) :
    (es.put name node).find? other = es.find? other := by
  induction es with
  | nil => simp [put, find?_cons, h]
  | cons e rest ih =>
    obtain ⟨k, n⟩ := e
    by_cases hk : k = name
    · subst hk; simp [put, find?_cons, h]
    · simp [put, hk, find?_cons, ih]

theorem find?_erase_self (es : Entries) (name : Name) : (es.erase name).find? name = none := by
  induction es with
  | nil => rfl
  | cons e rest ih =>
    obtain ⟨k, n⟩ := e
    by_cases hk : k = name
    · subst hk; simpa [erase] using ih
    · have : erase ((k, n) :: rest) name = (k, n) :: erase rest name := by simp [erase, hk]
      rw [this, find?_cons, if_neg (Ne.symm hk)]
      exact ih

theorem find?_erase_of_ne (es : Entries) {name other : Name} (h : other ≠ name) :
    (es.erase name).find? other = es.find? other := by
  induction es with
  | nil => rfl
  | cons e rest ih =>
    obtain ⟨k, n⟩ := e
    by_cases hk : k = name
    · subst hk
      rw [find?_cons, if_neg h, ← ih]
      simp [erase]
    · have : erase ((k, n) :: rest) name = (k, n) :: erase rest name := by simp [erase, hk]
      rw [this, find?_cons, find?_cons, ih]

theorem mem_of_find?_eq_some {es : Entries} {name : Name} {node : Node}
    (h : es.find? name = some node) : (name, node) ∈ es := by
  induction es with
  | nil => cases h
  | cons e rest ih =>
    obtain ⟨k, n⟩ := e
    rw [find?_cons] at h
    split at h
    · next hk => cases h; subst hk; exact List.mem_cons_self
    · exact List.mem_cons_of_mem _ (ih h)

/-- Where no name comes twice, every entry is found by its name. -/
theorem find?_eq_some_iff {es : Entries} (h : es.names.Nodup) {name : Name} {node : Node} :
    es.find? name = some node ↔ (name, node) ∈ es := by
  refine ⟨mem_of_find?_eq_some, fun hm => ?_⟩
  induction es with
  | nil => cases hm
  | cons e rest ih =>
    obtain ⟨k, n⟩ := e
    rw [names, List.map_cons, List.nodup_cons] at h
    rw [find?_cons]
    rcases List.mem_cons.1 hm with heq | hm
    · cases heq; simp
    · have : name ≠ k := fun hk => h.1 (hk ▸ (List.mem_map_of_mem hm : name ∈ rest.map Prod.fst))
      rw [if_neg this]
      exact ih h.2 hm

theorem mem_names_put {es : Entries} {name other : Name} {node : Node} :
    other ∈ (es.put name node).names ↔ other = name ∨ other ∈ es.names := by
  induction es with
  | nil => simp [put, names]
  | cons e rest ih =>
    obtain ⟨k, n⟩ := e
    by_cases hk : k = name
    · subst hk; simp [put, names]
    · simp only [put, hk, if_false, names, List.map_cons, List.mem_cons] at ih ⊢
      rw [ih]
      constructor
      · rintro (h | h | h)
        · exact Or.inr (Or.inl h)
        · exact Or.inl h
        · exact Or.inr (Or.inr h)
      · rintro (h | h | h)
        · exact Or.inr (Or.inl h)
        · exact Or.inl h
        · exact Or.inr (Or.inr h)

theorem names_put_of_mem {es : Entries} {name : Name} (node : Node) (h : name ∈ es.names) :
    (es.put name node).names = es.names := by
  induction es with
  | nil => cases h
  | cons e rest ih =>
    obtain ⟨k, n⟩ := e
    by_cases hk : k = name
    · simp [put, hk, names]
    · have hm : name ∈ names rest := by
        rcases List.mem_cons.1 h with h | h
        · exact absurd h.symm hk
        · exact h
      have := ih hm
      simp only [names] at this
      simp [put, hk, names, this]

theorem nodup_names_put {es : Entries} (h : es.names.Nodup) (name : Name) (node : Node) :
    (es.put name node).names.Nodup := by
  induction es with
  | nil => simp [put, names]
  | cons e rest ih =>
    obtain ⟨k, n⟩ := e
    have h' := h
    rw [names, List.map_cons, List.nodup_cons] at h'
    by_cases hk : k = name
    · have : (put ((k, n) :: rest) name node).names = names ((k, n) :: rest) := by
        simp [put, hk, names]
      rw [this]; exact h
    · have : (put ((k, n) :: rest) name node).names = k :: (put rest name node).names := by
        simp [put, hk, names]
      rw [this, List.nodup_cons, mem_names_put]
      exact ⟨fun hc => hc.elim hk h'.1, ih h'.2⟩

theorem names_erase (es : Entries) (name : Name) :
    (es.erase name).names = es.names.filter (· != name) := by
  simp [erase, names, List.filter_map, Function.comp_def]

end Entries

/-! ### Nodes by location -/

namespace Node

/-- The node of that name in a directory. -/
def child? : Node → Name → Option Node
  | dir _ entries, name => Entries.find? entries name
  | _, _ => none

/-- The node at a location. -/
def get? : Node → Location → Option Node
  | n, [] => some n
  | n, name :: rest => (n.child? name).bind (get? · rest)

/-- The tree with the node at a location replaced by what `f` makes of it. Where there is no node
there is no change. -/
def update (f : Node → Node) : Location → Node → Node
  | [], n => f n
  | name :: rest, dir listable entries =>
    match Entries.find? entries name with
    | some n => dir listable (Entries.put entries name (update f rest n))
    | none => dir listable entries
  | _ :: _, n => n

@[simp] theorem get?_nil (n : Node) : n.get? [] = some n := by cases n <;> rfl

theorem get?_cons (n : Node) (name : Name) (rest : Location) :
    n.get? (name :: rest) = (n.child? name).bind (get? · rest) := by cases n <;> rfl

theorem get?_append (n : Node) (a b : Location) :
    n.get? (a ++ b) = (n.get? a).bind (get? · b) := by
  induction a generalizing n with
  | nil => simp
  | cons name a ih =>
    rw [List.cons_append, get?_cons, get?_cons]
    cases n.child? name with
    | none => rfl
    | some m => exact ih m

@[simp] theorem update_nil (f : Node → Node) (n : Node) : update f [] n = f n := by
  cases n <;> rfl

/-- An update leaves the entries beside the one on its way alone. -/
theorem child?_update_of_ne (f : Node → Node) {name other : Name} (rest : Location) (n : Node)
    (h : other ≠ name) : (update f (name :: rest) n).child? other = n.child? other := by
  cases n with
  | dir listable entries =>
    simp only [update]
    split
    · exact Entries.find?_put_of_ne _ _ h
    · rfl
  | file _ _ | link _ => rfl

theorem child?_update_self (f : Node → Node) (name : Name) (rest : Location) (n : Node) :
    (update f (name :: rest) n).child? name = (n.child? name).map (update f rest) := by
  cases n with
  | dir listable entries =>
    simp only [update, child?]
    cases hf : Entries.find? entries name with
    | none => simpa [child?] using hf
    | some m => exact Entries.find?_put_self _ _ _
  | file _ _ | link _ => rfl

/-- At the location of an update stands what the change makes of the node that stood there. -/
theorem get?_update_self (f : Node → Node) (loc : Location) (n : Node) :
    (update f loc n).get? loc = (n.get? loc).map f := by
  induction loc generalizing n with
  | nil => simp
  | cons name rest ih =>
    rw [get?_cons, child?_update_self, get?_cons]
    cases n.child? name with
    | none => rfl
    | some m => exact ih m

/-- Below the location of an update stands what stands there in the changed node. -/
theorem get?_update_append (f : Node → Node) (loc below : Location) (n : Node) :
    (update f loc n).get? (loc ++ below) = ((n.get? loc).map f).bind (get? · below) := by
  rw [get?_append, get?_update_self]

/-- Neither on the way to the location of an update nor below it does anything change. -/
theorem get?_update_of_not_prefix (f : Node → Node) {loc other : Location} (n : Node)
    (h₁ : ¬ loc <+: other) (h₂ : ¬ other <+: loc) :
    (update f loc n).get? other = n.get? other := by
  induction loc generalizing n other with
  | nil => exact absurd (List.nil_prefix) h₁
  | cons name rest ih =>
    cases other with
    | nil => exact absurd (List.nil_prefix) h₂
    | cons k other =>
      rw [get?_cons, get?_cons]
      by_cases hk : k = name
      · subst hk
        rw [child?_update_self]
        cases n.child? k with
        | none => rfl
        | some m =>
          exact ih m (fun h => h₁ (List.cons_prefix_cons.2 ⟨rfl, h⟩))
            (fun h => h₂ (List.cons_prefix_cons.2 ⟨rfl, h⟩))
      · rw [child?_update_of_ne f rest n hk]

/-- Every directory has each name at most once, and only names that a path can have. -/
def WellFormed (n : Node) : Prop :=
  ∀ loc listable entries, n.get? loc = some (dir listable entries) →
    (Entries.names entries).Nodup ∧ ∀ name ∈ Entries.names entries, Path.isEntryName name = true

theorem wellFormed_file (content : ByteArray) (writable : Bool) :
    (file content writable).WellFormed := by
  intro loc listable entries h
  cases loc with
  | nil => simp at h
  | cons name rest => simp [get?_cons, child?] at h

theorem wellFormed_link (target : Text.Bytes) : (link target).WellFormed := by
  intro loc listable entries h
  cases loc with
  | nil => simp at h
  | cons name rest => simp [get?_cons, child?] at h

/-- A directory is well-formed if its own names are and its entries are. -/
theorem wellFormed_dir {listable : Bool} {entries : Entries} (h₁ : entries.names.Nodup)
    (h₂ : ∀ name ∈ entries.names, Path.isEntryName name = true)
    (h₃ : ∀ name n, entries.find? name = some n → n.WellFormed) :
    (dir listable entries).WellFormed := by
  intro loc l es h
  cases loc with
  | nil => simp only [get?_nil, Option.some.injEq, dir.injEq] at h; exact h.2 ▸ ⟨h₁, h₂⟩
  | cons name rest =>
    rw [get?_cons] at h
    obtain ⟨m, hm, h⟩ := Option.bind_eq_some_iff.1 h
    exact h₃ name m hm rest l es h

theorem WellFormed.get? {n m : Node} (h : n.WellFormed) (loc : Location)
    (hm : n.get? loc = some m) : m.WellFormed := by
  intro rest l es hr
  exact h (loc ++ rest) l es (by rw [get?_append, hm]; exact hr)

/-- An update keeps a tree well-formed if the change keeps the node well-formed. -/
theorem WellFormed.update {n : Node} (h : n.WellFormed) {f : Node → Node} (loc : Location)
    (hf : ∀ m, n.get? loc = some m → m.WellFormed → (f m).WellFormed) :
    (Node.update f loc n).WellFormed := by
  induction loc generalizing n with
  | nil => simpa using hf n (get?_nil n) h
  | cons name rest ih =>
    cases n with
    | file _ _ | link _ => exact h
    | dir listable entries =>
      simp only [Node.update]
      cases hfind : Entries.find? entries name with
      | none => exact h
      | some m =>
        have hchild : (dir listable entries).get? [name] = some m := by
          simp [get?_cons, child?, hfind]
        have hm : m.WellFormed := h.get? _ hchild
        have hown := h [] listable entries rfl
        have hmem : name ∈ Entries.names entries :=
          List.mem_map_of_mem (Entries.mem_of_find?_eq_some hfind)
        refine wellFormed_dir (Entries.nodup_names_put hown.1 _ _) ?_ ?_
        · rw [Entries.names_put_of_mem _ hmem]; exact hown.2
        · intro k x hx
          by_cases hk : k = name
          · subst hk
            rw [Entries.find?_put_self] at hx
            cases hx
            refine ih hm fun x hx => hf x ?_
            rw [get?_cons]
            simpa [child?, hfind] using hx
          · rw [Entries.find?_put_of_ne _ _ hk] at hx
            exact h.get? [k] (by simp [get?_cons, child?, hx])

end Node

end ImportSuffix
