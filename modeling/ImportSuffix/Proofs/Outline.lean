import ImportSuffix.Volume.Access

/-!
# The outline of a volume

The outline of a volume is all of it but what its files hold: which locations there are, what stands
at each, where the links lead, and which files and directories are closed. The order in which a
directory lists its entries is not part of it either.

Where a path leads depends on the outline alone (`SameOutline.follow_eq`), and new content in a file
changes no outline (`sameOutline_setContent`). So whatever is written to files, every path leads
where it led before.
-/

namespace ImportSuffix

open Text (Bytes)

/-- What a node is, apart from what a file holds and a directory lists. -/
inductive Outline
  /-- A file, which may be closed to writing. -/
  | file (writable : Bool)
  /-- A symbolic link. -/
  | link (target : Bytes)
  /-- A directory, which may be closed to listing. -/
  | dir (listable : Bool)
  deriving Repr, DecidableEq

namespace Node

/-- The outline of a node. -/
def outline : Node → Outline
  | file _ writable => .file writable
  | link target => .link target
  | dir listable _ => .dir listable

/-- What a file holds. -/
def content? : Node → Option ByteArray
  | file content _ => some content
  | _ => none

/-- The outline of the node at a location. -/
def outline? (root : Node) (loc : Location) : Option Outline := (root.get? loc).map outline

/-- That two trees have the same outline everywhere. -/
def SameOutline (root root' : Node) : Prop := ∀ loc, root.outline? loc = root'.outline? loc

variable {root root' : Node} {loc : Location}

theorem outline?_of_get? {n : Node} (h : root.get? loc = some n) :
    root.outline? loc = some n.outline := by
  rw [outline?, h, Option.map_some]

theorem get?_concat (root : Node) (loc : Location) (name : Name) :
    root.get? (loc ++ [name]) = (root.get? loc).bind (child? · name) := by
  rw [get?_append]
  congr 1
  funext n
  rw [get?_cons]
  cases n.child? name <;> simp

@[simp] theorem outline?_nil (n : Node) : n.outline? [] = some n.outline := by
  rw [outline?, get?_nil, Option.map_some]

/-- Trees with the same outline have subtrees with the same outline. -/
theorem SameOutline.exists_get? {n : Node} (h : root.SameOutline root')
    (hn : root.get? loc = some n) : ∃ n', root'.get? loc = some n' ∧ n.SameOutline n' := by
  have hsome : root'.outline? loc = some n.outline := (h loc).symm.trans (outline?_of_get? hn)
  obtain ⟨n', hn', -⟩ := Option.map_eq_some_iff.1 hsome
  refine ⟨n', hn', fun rest => ?_⟩
  have hrest := h (loc ++ rest)
  rwa [outline?, outline?, get?_append, get?_append, hn, hn'] at hrest

/-- Whether a directory stands somewhere can be seen from the outline. -/
theorem isDirAt_eq_true_iff :
    root.isDirAt loc = true ↔ ∃ listable, root.outline? loc = some (.dir listable) := by
  rw [isDirAt, outline?]
  cases root.get? loc with
  | none => simp
  | some n => cases n <;> simp [outline]

/-! ### Following names within the outline -/

theorem arrive_congr (h : root.SameOutline root') (slash : Bool) (loc : Location) :
    root.arrive slash loc = root'.arrive slash loc := by
  have hdir : root.isDirAt loc = root'.isDirAt loc := by
    rw [Bool.eq_iff_iff, isDirAt_eq_true_iff, isDirAt_eq_true_iff, h loc]
  rw [arrive, arrive, hdir]

/-- One step on the way, told by the outline. -/
theorem walk_cons (root : Node) (purpose : Purpose)
    (follow : Location → Bytes → List Name → Bool → Except Cause Place) (slash : Bool)
    (loc : Location) (name : Name) (rest : List Name) :
    root.walk purpose follow slash loc (name :: rest) =
      match root.outline? loc with
      | none => .error .notFound
      | some (.dir _) =>
        if name = Path.here then root.walk purpose follow slash loc rest
        else if name = Path.up then root.walk purpose follow slash loc.dropLast rest
        else if purpose = .writing ∧ rest = [] ∧ slash = true then .error .isDirectory
        else if Path.maxNameLength < name.length then .error .nameTooLong
        else match root.outline? (loc ++ [name]) with
          | none => if rest = [] then .ok (.free loc name) else .error .notFound
          | some (.link target) => follow loc target rest slash
          | some _ => root.walk purpose follow slash (loc ++ [name]) rest
      | some _ => .error .notDirectory := by
  rw [walk, outline?, outline?, get?_concat]
  cases root.get? loc with
  | none => rfl
  | some n =>
    cases n with
    | file _ _ | link _ => rfl
    | dir listable entries =>
      simp only [Option.map_some, Option.bind_some, outline, child?]
      cases Entries.find? entries name with
      | none => rfl
      | some m => cases m <;> rfl

theorem walk_congr (h : root.SameOutline root') (purpose : Purpose)
    {follow follow' : Location → Bytes → List Name → Bool → Except Cause Place}
    (hfollow : ∀ loc target rest slash,
      follow loc target rest slash = follow' loc target rest slash)
    (slash : Bool) (loc : Location) (names : List Name) :
    root.walk purpose follow slash loc names = root'.walk purpose follow' slash loc names := by
  induction names generalizing loc with
  | nil => exact arrive_congr h slash loc
  | cons name rest ih =>
    rw [walk_cons, walk_cons]
    simp only [ih, h loc, h (loc ++ [name]), hfollow]

/-- Where names lead depends on the outline alone. -/
theorem walkLinks_congr (h : root.SameOutline root') (purpose : Purpose) (links : Nat)
    (slash : Bool) (loc : Location) (names : List Name) :
    root.walkLinks purpose links slash loc names =
      root'.walkLinks purpose links slash loc names := by
  induction links generalizing slash loc names with
  | zero => exact walk_congr h purpose (fun _ _ _ _ => rfl) slash loc names
  | succ links ih => exact walk_congr h purpose (fun _ _ _ _ => ih _ _ _) slash loc names

/-! ### Updates that keep what is below -/

/-- An update that keeps the children of the node it changes is seen at its own location only, by
everything that does not see the entries of a directory. -/
theorem map_get?_update {α : Type} {g : Node → α} {f : Node → Node}
    (hg : ∀ listable entries entries', g (dir listable entries) = g (dir listable entries'))
    (hf : ∀ n name, (f n).child? name = n.child? name) (loc other : Location) (n : Node) :
    ((update f loc n).get? other).map g =
      if other = loc then (n.get? loc).map (g ∘ f) else (n.get? other).map g := by
  induction loc generalizing n other with
  | nil =>
    rw [update_nil]
    cases other with
    | nil => simp
    | cons name rest => simp [get?_cons, hf]
  | cons name loc ih =>
    cases other with
    | nil =>
      -- A directory on the way keeps all but its entries.
      simp only [get?_nil, Option.map_some, List.nil_eq, reduceCtorEq, if_false]
      cases n with
      | file _ _ | link _ => rfl
      | dir listable entries =>
        simp only [update]
        split
        · exact congrArg some (hg _ _ _)
        · rfl
    | cons k other =>
      rw [get?_cons, get?_cons, get?_cons]
      by_cases hk : k = name
      · subst hk
        rw [child?_update_self]
        cases n.child? k with
        | none => simp
        | some m => simpa using ih other m
      · rw [child?_update_of_ne f loc n hk, if_neg (by simp [hk])]

theorem child?_withContent (content : ByteArray) (n : Node) (name : Name) :
    (n.withContent content).child? name = n.child? name := by
  cases n <;> rfl

theorem outline_withContent (content : ByteArray) (n : Node) :
    (n.withContent content).outline = n.outline := by
  cases n <;> rfl

end Node

namespace Volume

variable {v w u : Volume} {loc other : Location} {path : Bytes}

/-- The outline of the node at a location. -/
def outline? (v : Volume) (loc : Location) : Option Outline := v.root.outline? loc

/-- What the file at a location holds. -/
def content? (v : Volume) (loc : Location) : Option ByteArray := (v.get? loc).bind Node.content?

/-- That two volumes are the same but for what files hold and the order in which directories list
their entries. -/
structure SameOutline (v w : Volume) : Prop where
  cwd_eq : v.cwd = w.cwd
  outline?_eq : ∀ loc, v.outline? loc = w.outline? loc

theorem SameOutline.refl (v : Volume) : v.SameOutline v := ⟨rfl, fun _ => rfl⟩

theorem SameOutline.symm (h : v.SameOutline w) : w.SameOutline v :=
  ⟨h.cwd_eq.symm, fun loc => (h.outline?_eq loc).symm⟩

theorem SameOutline.trans (h : v.SameOutline w) (h' : w.SameOutline u) : v.SameOutline u :=
  ⟨h.cwd_eq.trans h'.cwd_eq, fun loc => (h.outline?_eq loc).trans (h'.outline?_eq loc)⟩

theorem outline?_of_get? {n : Node} (h : v.get? loc = some n) : v.outline? loc = some n.outline :=
  Node.outline?_of_get? h

/-- A file is known by its outline and what it holds. -/
theorem get?_eq_file_iff {content : ByteArray} {writable : Bool} :
    v.get? loc = some (.file content writable) ↔
      v.outline? loc = some (.file writable) ∧ v.content? loc = some content := by
  rw [outline?, Node.outline?, content?, get?]
  cases v.root.get? loc with
  | none => simp
  | some n => cases n <;> simp [Node.outline, Node.content?, and_comm]

/-! ### Paths within the outline -/

/-- Where a path leads depends on the outline alone. -/
theorem SameOutline.follow_eq (h : v.SameOutline w) (purpose : Purpose) (path : Bytes) :
    v.follow purpose path = w.follow purpose path := by
  simp only [follow, Node.resolve_eq, h.cwd_eq, Node.walkLinks_congr h.outline?_eq]

theorem SameOutline.locate_eq (h : v.SameOutline w) (path : Bytes) :
    v.locate path = w.locate path := by
  rw [locate, locate, h.follow_eq]

theorem SameOutline.contains_eq (h : v.SameOutline w) (path : Bytes) :
    v.contains path = w.contains path := by
  rw [contains, contains, h.locate_eq]

/-! ### New content -/

/-- New content in a file changes no outline. -/
theorem sameOutline_setContent (v : Volume) (loc : Location) (content : ByteArray) :
    (v.setContent loc content).SameOutline v := by
  refine ⟨rfl, fun other => ?_⟩
  have hmap := Node.map_get?_update (fun _ _ _ => rfl) (Node.child?_withContent content) loc other
    v.root (g := Node.outline)
  have hkeeps : Node.outline ∘ Node.withContent content = Node.outline :=
    funext (Node.outline_withContent content)
  rw [hkeeps] at hmap
  by_cases hother : other = loc
  · subst hother
    rwa [if_pos rfl] at hmap
  · rwa [if_neg hother] at hmap

theorem content?_eq_join (v : Volume) (loc : Location) :
    v.content? loc = ((v.get? loc).map Node.content?).join := by
  rw [content?]
  cases v.get? loc <;> rfl

theorem content?_setContent_of_ne (v : Volume) (content : ByteArray) (h : other ≠ loc) :
    (v.setContent loc content).content? other = v.content? other := by
  have hmap := Node.map_get?_update (fun _ _ _ => rfl) (Node.child?_withContent content) loc other
    v.root (g := Node.content?)
  rw [if_neg h] at hmap
  rw [content?_eq_join, content?_eq_join]
  exact congrArg Option.join hmap

theorem content?_setContent_self {writable : Bool} (h : v.outline? loc = some (.file writable))
    (content : ByteArray) : (v.setContent loc content).content? loc = some content := by
  obtain ⟨n, hn, hfile⟩ := Option.map_eq_some_iff.1 h
  have hget : (v.setContent loc content).get? loc = some (n.withContent content) := by
    rw [get?, setContent, update, Node.get?_update_self, hn, Option.map_some]
  rw [content?, hget, Option.bind_some]
  cases n with
  | file _ _ => rfl
  | link _ | dir _ _ => cases hfile

end Volume

end ImportSuffix
