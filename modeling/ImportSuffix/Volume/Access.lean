import ImportSuffix.Volume.Resolve

/-!
# Reading and writing files

A file is read whole and written whole. Writing goes through links and creates a file where the path
leads to a free name; it fails, if at all, before anything is changed. Both say what became of the
volume, so that an operation which fails says it too.
-/

namespace ImportSuffix

open Text (Bytes)

/-- The node with other content if it is a file, which keeps its permission. -/
def Node.withContent (content : ByteArray) : Node → Node
  | .file _ writable => .file content writable
  | other => other

/-- The directory with one more entry at a name, which is taken if it can be a name. -/
def Node.withEntry (name : Name) (node : Node) : Node → Node
  | .dir listable entries =>
    if Path.isEntryName name then .dir listable (Entries.put entries name node)
    else .dir listable entries
  | other => other

/-- The directory without the entry of a name. -/
def Node.withoutEntry (name : Name) : Node → Node
  | .dir listable entries => .dir listable (Entries.erase entries name)
  | other => other

namespace Node

theorem WellFormed.withContent {n : Node} (h : n.WellFormed) (content : ByteArray) :
    (n.withContent content).WellFormed := by
  cases n with
  | file _ w => exact wellFormed_file content w
  | link _ | dir _ _ => exact h

theorem WellFormed.withEntry {n m : Node} (h : n.WellFormed) (hm : m.WellFormed) (name : Name) :
    (Node.withEntry name m n).WellFormed := by
  cases n with
  | file _ _ | link _ => exact h
  | dir listable entries =>
    rw [Node.withEntry]
    split
    · next hname =>
      have hown := h [] listable entries rfl
      refine wellFormed_dir (Entries.nodup_names_put hown.1 _ _) ?_ ?_
      · intro k hk
        rcases Entries.mem_names_put.1 hk with rfl | hk
        · exact hname
        · exact hown.2 k hk
      · intro k x hx
        by_cases hk : k = name
        · subst hk
          rw [Entries.find?_put_self] at hx
          cases hx
          exact hm
        · rw [Entries.find?_put_of_ne _ _ hk] at hx
          exact h.get? [k] (by simp [get?_cons, child?, hx])
    · exact h

theorem WellFormed.withoutEntry {n : Node} (h : n.WellFormed) (name : Name) :
    (n.withoutEntry name).WellFormed := by
  cases n with
  | file _ _ | link _ => exact h
  | dir listable entries =>
    have hown := h [] listable entries rfl
    refine wellFormed_dir ?_ ?_ ?_
    · rw [Entries.names_erase]; exact hown.1.filter _
    · intro k hk
      rw [Entries.names_erase] at hk
      exact hown.2 k (List.mem_filter.1 hk).1
    · intro k x hx
      by_cases hk : k = name
      · subst hk; rw [Entries.find?_erase_self] at hx; cases hx
      · rw [Entries.find?_erase_of_ne _ hk] at hx
        exact h.get? [k] (by simp [get?_cons, child?, hx])

end Node

namespace Volume

/-- The volume with the node at a location changed by a function that keeps nodes well-formed. -/
def update (v : Volume) (loc : Location) (f : Node → Node)
    (hf : ∀ n : Node, n.WellFormed → (f n).WellFormed) : Volume :=
  { v with
    root := Node.update f loc v.root
    wellFormed := v.wellFormed.update loc fun n _ hn => hf n hn }

/-- The volume with other content in the file at a location. -/
def setContent (v : Volume) (loc : Location) (content : ByteArray) : Volume :=
  v.update loc (Node.withContent content) fun _ h => h.withContent content

/-- The volume with one more entry in the directory at a location. -/
def addEntry (v : Volume) (loc : Location) (name : Name) (node : Node) (h : node.WellFormed) :
    Volume :=
  v.update loc (Node.withEntry name node) fun _ hn => hn.withEntry h name

/-- The volume without an entry of the directory at a location. -/
def removeEntry (v : Volume) (loc : Location) (name : Name) : Volume :=
  v.update loc (Node.withoutEntry name) fun _ h => h.withoutEntry name

/-- The content of the file at a path. -/
def read (v : Volume) (path : Bytes) : Except Cause ByteArray :=
  match v.locate path with
  | .error cause => .error cause
  | .ok loc =>
    match v.get? loc with
    | some (.file content _) => .ok content
    | some (.dir _ _) => .error .isDirectory
    | _ => .error .notFound

/-- Writes the content of the file at a path, and creates the file if the path leads to a free name.
That name has to be one that an entry can have: it has a zero byte if the target of a link has. -/
def write (v : Volume) (path : Bytes) (content : ByteArray) : Except Cause Unit × Volume :=
  match v.follow .writing path with
  | .error cause => (.error cause, v)
  | .ok (.free parent name) =>
    if Path.isEntryName name then
      (.ok (), v.addEntry parent name (.file content true) (Node.wellFormed_file content true))
    else (.error .zeroByte, v)
  | .ok (.node loc) =>
    match v.get? loc with
    | some (.file _ true) => (.ok (), v.setContent loc content)
    | some (.file _ false) => (.error .notPermitted, v)
    | some (.dir _ _) => (.error .isDirectory, v)
    | _ => (.error .notFound, v)

end Volume

end ImportSuffix
