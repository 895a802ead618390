import ImportSuffix.Discovery
import ImportSuffix.Proofs.Route
import Mathlib.Data.List.Sort

/-!
# What discovery finds

Discovery walks the tree below a root. What it finds is said here by paths instead: a directory is
listed by its path, from the root on, and what is listed there as a directory is listed next
(`Volume.FoundAt`). That both come to the same (`reaches_iff_foundAt`) rests on the path of a
directory leading to it, one name after the other.

The paths found are in strictly ascending order of their names, so they are known from which they
are; and that depends on the outline of the volume alone (`Volume.SameOutline.discover_eq`).
-/

namespace ImportSuffix

open Text (Bytes)
open ImportSuffix.Path (EntryName)

/-! ### Ascending lists of locations -/

theorem mem_insertNames {names other : Location} {found : List Location} :
    other ∈ insertNames names found ↔ other = names ∨ other ∈ found := by
  induction found with
  | nil => simp [insertNames]
  | cons first rest ih =>
    rw [insertNames]
    by_cases hlt : names < first
    · simp [hlt]
    · by_cases heq : names = first
      · simp [heq, List.lt_irrefl]
      · simp only [if_neg hlt, if_neg heq, List.mem_cons, ih]
        exact or_left_comm

theorem pairwise_insertNames {names : Location} {found : List Location}
    (h : found.Pairwise (· < ·)) : (insertNames names found).Pairwise (· < ·) := by
  induction found with
  | nil => simp [insertNames]
  | cons first rest ih =>
    rw [insertNames]
    obtain ⟨hfirst, hrest⟩ := List.pairwise_cons.1 h
    by_cases hlt : names < first
    · rw [if_pos hlt]
      refine List.pairwise_cons.2 ⟨fun other hother => ?_, h⟩
      rcases List.mem_cons.1 hother with rfl | hother
      · exact hlt
      · exact List.lt_trans hlt (hfirst other hother)
    · by_cases heq : names = first
      · rw [if_neg hlt, if_pos heq]
        exact h
      · rw [if_neg hlt, if_neg heq]
        refine List.pairwise_cons.2 ⟨fun other hother => ?_, ih hrest⟩
        rcases mem_insertNames.1 hother with rfl | hother
        · by_contra hle
          exact heq (Std.Trichotomous.trichotomous (r := (· < ·)) _ _ hlt hle)
        · exact hfirst other hother

theorem mem_foldr_insertNames {names : Location} {found : List Location} :
    names ∈ found.foldr insertNames [] ↔ names ∈ found := by
  induction found with
  | nil => simp
  | cons first rest ih => rw [List.foldr_cons, mem_insertNames, ih, List.mem_cons]

theorem pairwise_foldr_insertNames (found : List Location) :
    (found.foldr insertNames []).Pairwise (· < ·) := by
  induction found with
  | nil => exact .nil
  | cons first rest ih => exact pairwise_insertNames ih

namespace Node

/-! ### Leaves that a walk reaches -/

/-- That a walk reaches a leaf by entering directories only, from a node at some names. -/
inductive Reaches (enter : Location → Bool → Bool) : Location → Node → Location → Prop
  /-- A leaf is reached by no further names. -/
  | leaf {names n} (h : n.isDir = false) : Reaches enter names n []
  /-- What is reached from an entry is reached from the directory, if it is entered. -/
  | entry {names name rest listable n} {entries : Entries} (henter : enter names listable = true)
      (hn : entries.find? name = some n) (h : Reaches enter (names ++ [name]) n rest) :
      Reaches enter names (dir listable entries) (name :: rest)

variable {enter : Location → Bool → Bool} {names below : Location}

theorem reaches_nil {n : Node} : Reaches enter names n [] ↔ n.isDir = false := by
  constructor
  · intro h
    cases h with
    | leaf h => exact h
  · exact .leaf

theorem reaches_leaf {n : Node} (hn : n.isDir = false) :
    Reaches enter names n below ↔ below = [] := by
  constructor
  · intro h
    cases h with
    | leaf _ => rfl
    | entry _ _ _ => cases hn
  · intro h
    exact h ▸ .leaf hn

theorem mem_leavesAt_leaf {n : Node} {loc : Location} (hn : n.isDir = false) :
    loc ∈ [(names, n)].map Prod.fst ↔
      ∃ below, loc = names ++ below ∧ Reaches enter names n below := by
  simp [reaches_leaf hn]

mutual

/-- The leaves listed below a node are those that are reached. -/
theorem mem_leavesAt {names loc : Location} : ∀ {n : Node}, n.WellFormed →
    (loc ∈ (leavesAt enter names n).map Prod.fst ↔
      ∃ below, loc = names ++ below ∧ Reaches enter names n below)
  | file _ _, _ => by
    rw [leavesAt]
    exact mem_leavesAt_leaf rfl
  | link _, _ => by
    rw [leavesAt]
    exact mem_leavesAt_leaf rfl
  | dir listable entries, h => by
    have hown := h [] listable entries rfl
    have hentries : ∀ e ∈ entries, e.2.WellFormed := by
      intro e he
      have hfind := (Entries.find?_eq_some_iff hown.1).2 he
      exact h.get? [e.1] (by simp [get?_cons, child?, hfind])
    rw [leavesAt]
    constructor
    · intro hloc
      split at hloc
      · next henter =>
        obtain ⟨name, n, below, hn, rfl, hreach⟩ := (mem_leavesOf hown.1 hentries).1 hloc
        exact ⟨name :: below, rfl, .entry henter hn hreach⟩
      · cases hloc
    · intro hloc
      obtain ⟨below, rfl, hreach⟩ := hloc
      cases hreach with
      | leaf h => cases h
      | entry henter hn hreach =>
        rw [if_pos henter]
        exact (mem_leavesOf hown.1 hentries).2 ⟨_, _, _, hn, rfl, hreach⟩

theorem mem_leavesOf {names loc : Location} : ∀ {entries : Entries},
    entries.names.Nodup → (∀ e ∈ entries, e.2.WellFormed) →
    (loc ∈ (leavesOf enter names entries).map Prod.fst ↔
      ∃ name n below, entries.find? name = some n ∧ loc = names ++ name :: below ∧
        Reaches enter (names ++ [name]) n below)
  | [], _, _ => by simp [leavesOf]
  | (name, n) :: rest, hnodup, h => by
    rw [List.forall_mem_cons] at h
    have hnames : name ∉ Entries.names rest ∧ (Entries.names rest).Nodup := List.nodup_cons.1 hnodup
    rw [leavesOf, List.map_append, List.mem_append, mem_leavesAt h.1, mem_leavesOf hnames.2 h.2]
    constructor
    · intro hloc
      cases hloc with
      | inl hloc =>
        obtain ⟨below, rfl, hreach⟩ := hloc
        exact ⟨name, n, below, by simp [Entries.find?_cons], by simp, hreach⟩
      | inr hloc =>
        obtain ⟨other, m, below, hm, rfl, hreach⟩ := hloc
        have hne : other ≠ name := by
          intro heq
          exact hnames.1 (heq ▸ List.mem_map_of_mem (Entries.mem_of_find?_eq_some hm))
        exact ⟨other, m, below, by rw [Entries.find?_cons, if_neg hne, hm], rfl, hreach⟩
    · intro hloc
      obtain ⟨other, m, below, hm, rfl, hreach⟩ := hloc
      rw [Entries.find?_cons] at hm
      by_cases heq : other = name
      · rw [if_pos heq] at hm
        cases hm
        subst heq
        exact .inl ⟨below, by simp, hreach⟩
      · rw [if_neg heq] at hm
        exact .inr ⟨other, m, below, hm, rfl, hreach⟩

end

/-- What is reached by further names is reached from a directory that is entered. -/
theorem Reaches.exists_dir {n : Node} (h : Reaches enter names n below) (hne : below ≠ []) :
    ∃ listable entries, n = dir listable entries ∧ enter names listable = true := by
  cases h with
  | leaf _ => exact absurd rfl hne
  | entry henter _ _ => exact ⟨_, _, rfl, henter⟩

/-- What is reached depends on the outline alone. -/
theorem Reaches.congr {n n' : Node} (hsame : n.SameOutline n') (h : Reaches enter names n below) :
    Reaches enter names n' below := by
  induction h generalizing n' with
  | @leaf names n h =>
    have houtline : n.outline = n'.outline := by simpa using hsame []
    refine .leaf ?_
    cases n <;> cases n' <;> simp_all [outline, isDir]
  | @entry names name rest listable m entries henter hm h ih =>
    have houtline : Outline.dir listable = n'.outline := by simpa [outline] using hsame []
    have hentry : (dir listable entries).get? [name] = some m := by simp [get?_cons, child?, hm]
    obtain ⟨m', hm', hsub⟩ := hsame.exists_get? hentry
    cases n' with
    | file _ _ | link _ => cases houtline
    | dir listable' entries' =>
      cases houtline
      have hfind : Entries.find? entries' name = some m' := by simpa [get?_cons, child?] using hm'
      exact .entry henter hfind (ih hsub)

end Node

namespace Volume

variable {v w : Volume} {root path : Bytes} {names dirs : List Name} {name : Name}
  {loc : Location} {n : Node} {entries : Entries}

/-! ### Finding files by their paths -/

/-- The entries that are listed at a path, if it leads to a directory that can be listed. -/
def list? (v : Volume) (path : Bytes) : Option Entries :=
  match v.locate path with
  | .ok loc =>
    match v.get? loc with
    | some (.dir true entries) => some entries
    | _ => none
  | .error _ => none

theorem list?_eq_some_iff : v.list? path = some entries ↔
    ∃ loc, v.locate path = .ok loc ∧ v.get? loc = some (.dir true entries) := by
  rw [list?]
  cases v.locate path with
  | error cause => simp
  | ok loc =>
    cases hn : v.get? loc with
    | none => simp [hn]
    | some n =>
      cases n with
      | file _ _ | link _ => simp [hn]
      | dir listable es => cases listable <;> simp [hn]

/-- That a file of that name is found below a root, through directories of those names. -/
structure FoundAt (v : Volume) (root : Bytes) (dirs : List Name) (name : Name) : Prop where
  /-- Each directory on the way is a directory, and no link to one, in what is listed before it. -/
  dirs_listed : ∀ before dir, before ++ [dir] <+: dirs → ∃ entries listable sub,
    v.list? (Path.joinAll root before) = some entries ∧ (dir, .dir listable sub) ∈ entries
  /-- In what is listed last, the name is that of an entry which is no directory. -/
  entry_listed : ∃ entries n,
    v.list? (Path.joinAll root dirs) = some entries ∧ (name, n) ∈ entries ∧ n.isDir = false

theorem foundAt_nil : v.FoundAt root [] name ↔
    ∃ entries n, v.list? root = some entries ∧ (name, n) ∈ entries ∧ n.isDir = false := by
  constructor
  · intro h
    have hlisted := h.entry_listed
    rwa [Path.joinAll_nil] at hlisted
  · intro h
    refine ⟨fun before dir hprefix => by simp at hprefix, ?_⟩
    rwa [Path.joinAll_nil]

theorem foundAt_cons {dir : Name} : v.FoundAt root (dir :: dirs) name ↔
    (∃ entries listable sub, v.list? root = some entries ∧ (dir, .dir listable sub) ∈ entries) ∧
      v.FoundAt (Path.join root dir) dirs name := by
  constructor
  · intro h
    refine ⟨?_, fun before d hprefix => ?_, ?_⟩
    · have hlisted := h.dirs_listed [] dir (by simp)
      rwa [Path.joinAll_nil] at hlisted
    · have hlisted := h.dirs_listed (dir :: before) d (by simpa using hprefix)
      rwa [Path.joinAll_cons] at hlisted
    · have hlisted := h.entry_listed
      rwa [Path.joinAll_cons] at hlisted
  · intro h
    obtain ⟨hroot, hrest⟩ := h
    refine ⟨fun before d hprefix => ?_, ?_⟩
    · cases before with
      | nil =>
        obtain rfl : d = dir := by simpa using hprefix
        rwa [Path.joinAll_nil]
      | cons first before =>
        rw [List.cons_append, List.cons_prefix_cons] at hprefix
        obtain ⟨rfl, hprefix⟩ := hprefix
        rw [Path.joinAll_cons]
        exact hrest.dirs_listed before d hprefix
    · rw [Path.joinAll_cons]
      exact hrest.entry_listed

theorem length_le_of_list? (h : v.list? path = some entries) : path.length ≤ Path.maxLength := by
  obtain ⟨loc, hloc, -⟩ := list?_eq_some_iff.1 h
  exact (locate_eq_ok_iff.1 hloc).2.2.1

/-- If anything is found below a root, the root itself is listed. -/
theorem FoundAt.exists_list? (h : v.FoundAt root dirs name) :
    ∃ entries, v.list? root = some entries := by
  cases dirs with
  | nil =>
    obtain ⟨entries, n, hlist, -⟩ := foundAt_nil.1 h
    exact ⟨entries, hlist⟩
  | cons dir dirs =>
    obtain ⟨⟨entries, listable, sub, hlist, -⟩, -⟩ := foundAt_cons.1 h
    exact ⟨entries, hlist⟩

theorem FoundAt.length_le (h : v.FoundAt root dirs name) : root.length ≤ Path.maxLength := by
  obtain ⟨entries, hlist⟩ := h.exists_list?
  exact length_le_of_list? hlist

/-! ### The tree and the paths into it -/

theorem list?_of_locate (hpath : v.locate path = .ok loc) (hn : v.get? loc = some n) :
    v.list? path = some entries ↔ n = .dir true entries := by
  rw [list?_eq_some_iff]
  constructor
  · intro h
    obtain ⟨loc', hloc', hn'⟩ := h
    cases hpath.symm.trans hloc'
    exact Option.some.inj (hn.symm.trans hn')
  · intro h
    exact ⟨loc, hpath, h ▸ hn⟩

theorem canList_iff {listable : Bool} : canList root names listable = true ↔
    listable = true ∧ (Path.joinAll root names).length ≤ Path.maxLength := by
  simp [canList]

/-- In a directory that can be listed by its path, entries are found by their names. -/
theorem mem_iff_find? (hn : v.get? loc = some (.dir true entries)) :
    (name, n) ∈ entries ↔ entries.find? name = some n :=
  (Entries.find?_eq_some_iff (v.wellFormed loc true entries hn).1).symm

/-- The path of a directory in a directory leads to it, if it is not too long. -/
theorem locate_dir {listable : Bool} {sub : Entries}
    (hpath : v.locate (Path.joinAll root names) = .ok loc)
    (hn : v.get? loc = some (.dir true entries))
    (hdir : entries.find? name = some (.dir listable sub))
    (hlen : (Path.joinAll root (names ++ [name])).length ≤ Path.maxLength) :
    v.locate (Path.joinAll root (names ++ [name])) = .ok (loc ++ [name]) ∧
      v.get? (loc ++ [name]) = some (.dir listable sub) := by
  have hget : v.get? (loc ++ [name]) = some (.dir listable sub) := by
    rw [get?, Node.get?_concat]
    rw [get?] at hn
    simp [hn, Node.child?, hdir]
  have hname : EntryName name := by
    refine Path.isEntryName_iff.1 ((v.wellFormed loc true entries hn).2 name ?_)
    exact List.mem_map_of_mem (Entries.mem_of_find?_eq_some hdir)
  rw [Path.joinAll_concat] at hlen ⊢
  refine ⟨locate_join hpath ?_ hname (outline?_of_get? hget) (fun target h => nomatch h) hlen, hget⟩
  exact Node.isDirAt_eq_true_iff.2 ⟨true, outline?_of_get? hn⟩

/-- A leaf is reached in the tree exactly if it is found by its path. -/
theorem reaches_iff_foundAt (hpath : v.locate (Path.joinAll root names) = .ok loc)
    (hn : v.get? loc = some n) :
    Node.Reaches (canList root) names n (dirs ++ [name]) ↔
      v.FoundAt (Path.joinAll root names) dirs name := by
  induction dirs generalizing names loc n with
  | nil =>
    rw [foundAt_nil]
    constructor
    · intro h
      cases h with
      | @entry _ _ _ listable m entries henter hm h =>
        obtain ⟨rfl, -⟩ := canList_iff.1 henter
        exact ⟨entries, m, (list?_of_locate hpath hn).2 rfl, (mem_iff_find? hn).2 hm,
          Node.reaches_nil.1 h⟩
    · intro h
      obtain ⟨entries, m, hlist, hm, hleaf⟩ := h
      obtain rfl := (list?_of_locate hpath hn).1 hlist
      exact .entry (canList_iff.2 ⟨rfl, length_le_of_list? hlist⟩) ((mem_iff_find? hn).1 hm)
        (.leaf hleaf)
  | cons dir dirs ih =>
    rw [foundAt_cons, ← Path.joinAll_concat]
    constructor
    · intro h
      cases h with
      | @entry _ _ _ listable m entries henter hm h =>
        obtain ⟨rfl, -⟩ := canList_iff.1 henter
        obtain ⟨listable, sub, rfl, hsub⟩ := h.exists_dir (by simp)
        obtain ⟨hpath', hn'⟩ := locate_dir hpath hn hm (canList_iff.1 hsub).2
        exact ⟨⟨entries, listable, sub, (list?_of_locate hpath hn).2 rfl, (mem_iff_find? hn).2 hm⟩,
          (ih hpath' hn').1 h⟩
    · intro h
      obtain ⟨⟨entries, listable, sub, hlist, hm⟩, hrest⟩ := h
      obtain rfl := (list?_of_locate hpath hn).1 hlist
      have hfind := (mem_iff_find? hn).1 hm
      obtain ⟨hpath', hn'⟩ := locate_dir hpath hn hfind hrest.length_le
      exact .entry (canList_iff.2 ⟨rfl, length_le_of_list? hlist⟩) hfind ((ih hpath' hn').2 hrest)

theorem mem_leavesBelow_of_locate {listable : Bool} (hpath : v.locate root = .ok loc)
    (hn : v.get? loc = some (.dir listable entries)) :
    names ∈ v.leavesBelow root ↔ Node.Reaches (canList root) [] (.dir listable entries) names := by
  have hleaves : v.leavesBelow root =
      ((Node.dir listable entries).leavesAt (canList root) []).map Prod.fst := by
    simp only [leavesBelow, hpath, hn]
  rw [hleaves, Node.mem_leavesAt (v.wellFormed.get? loc hn)]
  simp

theorem exists_of_mem_leavesBelow (h : names ∈ v.leavesBelow root) : ∃ loc listable entries,
    v.locate root = .ok loc ∧ v.get? loc = some (.dir listable entries) ∧
      Node.Reaches (canList root) [] (.dir listable entries) names := by
  have hmem := h
  rw [leavesBelow] at h
  split at h
  · cases h
  · next loc hpath =>
    split at h
    · next listable entries hn =>
      exact ⟨loc, listable, entries, hpath, hn, (mem_leavesBelow_of_locate hpath hn).1 hmem⟩
    · cases h

/-- The walk below a root comes to what is found by paths. -/
theorem mem_leavesBelow : names ∈ v.leavesBelow root ↔
    ∃ dirs name, names = dirs ++ [name] ∧ v.FoundAt root dirs name := by
  have hfound {dirs name loc n} (hpath : v.locate root = .ok loc) (hn : v.get? loc = some n) :
      Node.Reaches (canList root) [] n (dirs ++ [name]) ↔ v.FoundAt root dirs name := by
    rw [← Path.joinAll_nil root] at hpath
    rw [reaches_iff_foundAt hpath hn, Path.joinAll_nil]
  constructor
  · intro h
    obtain ⟨loc, listable, entries, hpath, hn, hreach⟩ := exists_of_mem_leavesBelow h
    have hne : names ≠ [] := by
      intro hnil
      rw [hnil, Node.reaches_nil] at hreach
      cases hreach
    obtain ⟨dirs, name, rfl⟩ := (List.eq_nil_or_concat' names).resolve_left hne
    exact ⟨dirs, name, rfl, (hfound hpath hn).1 hreach⟩
  · intro h
    obtain ⟨dirs, name, rfl, h⟩ := h
    obtain ⟨entries, hlist⟩ := h.exists_list?
    obtain ⟨loc, hpath, hn⟩ := list?_eq_some_iff.1 hlist
    exact (mem_leavesBelow_of_locate hpath hn).2 ((hfound hpath hn).2 h)

theorem SameOutline.mem_leavesBelow (hsame : v.SameOutline w) (h : names ∈ v.leavesBelow root) :
    names ∈ w.leavesBelow root := by
  obtain ⟨loc, listable, entries, hpath, hn, hreach⟩ := exists_of_mem_leavesBelow h
  rw [hsame.locate_eq] at hpath
  obtain ⟨n', hn', hsub⟩ := Node.SameOutline.exists_get? hsame.outline?_eq hn
  have houtline : Outline.dir listable = n'.outline := by simpa [Node.outline] using hsub []
  cases n' with
  | file _ _ | link _ => cases houtline
  | dir listable' entries' => exact (mem_leavesBelow_of_locate hpath hn').2 (hreach.congr hsub)

/-! ### The result of discovery -/

variable {c : Config}

theorem mem_discoverNames : names ∈ v.discoverNames c ↔ ∃ dirs name,
    names = dirs ++ [name] ∧ v.FoundAt c.root dirs name ∧ matchesAny c.patterns name = true := by
  rw [discoverNames, mem_foldr_insertNames, List.mem_filter, mem_leavesBelow]
  constructor
  · intro h
    obtain ⟨⟨dirs, name, rfl, hfound⟩, hmatch⟩ := h
    exact ⟨dirs, name, rfl, hfound, by simpa using hmatch⟩
  · intro h
    obtain ⟨dirs, name, rfl, hfound, hmatch⟩ := h
    exact ⟨⟨dirs, name, rfl, hfound⟩, by simpa using hmatch⟩

theorem matchesAny_iff {patterns : List String} : matchesAny patterns name = true ↔
    ∃ pattern ∈ patterns,
      Glob.isMatch (Text.bytesOf pattern) (Text.encode (Text.decodeLossy name)) = true := by
  simp [matchesAny]

theorem entryName_of_list? (h : v.list? path = some entries) (hm : (name, n) ∈ entries) :
    EntryName name := by
  obtain ⟨loc, -, hn⟩ := list?_eq_some_iff.1 h
  exact Path.isEntryName_iff.1
    ((v.wellFormed loc true entries hn).2 name (List.mem_map_of_mem (f := Prod.fst) hm))

/-- What is found is found by names of entries. -/
theorem FoundAt.entryName (h : v.FoundAt root dirs name) : ∀ d ∈ dirs ++ [name], EntryName d := by
  induction dirs generalizing root with
  | nil =>
    obtain ⟨entries, n, hlist, hm, -⟩ := foundAt_nil.1 h
    simpa using entryName_of_list? hlist hm
  | cons dir dirs ih =>
    obtain ⟨⟨entries, listable, sub, hlist, hm⟩, hrest⟩ := foundAt_cons.1 h
    exact List.forall_mem_cons.2 ⟨entryName_of_list? hlist hm, ih hrest⟩

theorem pairwise_discoverNames (v : Volume) (c : Config) :
    (v.discoverNames c).Pairwise (· < ·) :=
  pairwise_foldr_insertNames _

theorem names_of_mem_discoverNames (h : names ∈ v.discoverNames c) :
    Path.names (Path.joinAll c.root names) = Path.names c.root ++ names := by
  obtain ⟨dirs, name, rfl, hfound, -⟩ := mem_discoverNames.1 h
  exact Path.names_joinAll c.root hfound.entryName

/-- The paths found are in strictly ascending order of their names. -/
theorem pairwise_discover (v : Volume) (c : Config) :
    (v.discover c).Pairwise fun p q => Path.names p < Path.names q := by
  rw [discover, List.pairwise_map]
  refine (pairwise_discoverNames v c).imp_of_mem fun ha hb hlt => ?_
  rw [names_of_mem_discoverNames ha, names_of_mem_discoverNames hb]
  exact List.append_left_lt hlt

/-- What is found depends on the outline of the volume and on which patterns there are. -/
theorem SameOutline.discover_eq {patterns : List String} (hsame : v.SameOutline w)
    (hpatterns : ∀ p, p ∈ patterns ↔ p ∈ c.patterns) :
    v.discover ⟨c.root, patterns⟩ = w.discover c := by
  have hmatch (name : Name) :
      matchesAny patterns name = true ↔ matchesAny c.patterns name = true := by
    simp [matchesAny_iff, hpatterns]
  have hleaves (names : Location) : names ∈ v.leavesBelow c.root ↔ names ∈ w.leavesBelow c.root :=
    ⟨hsame.mem_leavesBelow, hsame.symm.mem_leavesBelow⟩
  have hnames : v.discoverNames ⟨c.root, patterns⟩ = w.discoverNames c := by
    refine (pairwise_discoverNames v _).eq_of_mem_iff (pairwise_discoverNames w c) fun names => ?_
    rw [discoverNames, discoverNames, mem_foldr_insertNames, mem_foldr_insertNames, List.mem_filter,
      List.mem_filter, hleaves, hmatch]
  rw [discover, discover, hnames]

/-- Discovery finds exactly the files that are found by their paths and have a name that matches,
each once and in ascending order, whatever the order in which directories list their entries and
however often and in which order the patterns are given. -/
theorem discover_exact (v : Volume) (c : Config) :
    (∀ path, path ∈ v.discover c ↔ ∃ dirs name, path = Path.joinAll c.root (dirs ++ [name]) ∧
      v.FoundAt c.root dirs name ∧ ∃ pattern ∈ c.patterns,
        Glob.isMatch (Text.bytesOf pattern) (Text.encode (Text.decodeLossy name)) = true) ∧
    ((v.discover c).Pairwise fun p q => Path.names p < Path.names q) ∧
    ∀ (w : Volume) (patterns : List String), w.SameOutline v →
      (∀ p, p ∈ patterns ↔ p ∈ c.patterns) → w.discover ⟨c.root, patterns⟩ = v.discover c := by
  refine ⟨fun path => ?_, pairwise_discover v c, fun w patterns hsame => hsame.discover_eq⟩
  rw [discover, List.mem_map]
  constructor
  · intro h
    obtain ⟨names, hnames, rfl⟩ := h
    obtain ⟨dirs, name, rfl, hfound, hmatch⟩ := mem_discoverNames.1 hnames
    exact ⟨dirs, name, rfl, hfound, matchesAny_iff.1 hmatch⟩
  · intro h
    obtain ⟨dirs, name, rfl, hfound, hmatch⟩ := h
    exact ⟨_, mem_discoverNames.2 ⟨dirs, name, rfl, hfound, matchesAny_iff.2 hmatch⟩, rfl⟩

end Volume

end ImportSuffix
