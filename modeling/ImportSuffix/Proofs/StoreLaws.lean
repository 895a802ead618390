import ImportSuffix.Proofs.FixStep
import ImportSuffix.Volume.Edit

/-!
# The laws of reading and writing

A write puts the text into the one file that its path leads to, which it creates if the path leads
to a free name, or it fails and changes nothing. Every path that leads there reads the text then,
and nothing else is changed. What is read can be written back without a change, and of two writes
to a path only the second one counts (`Volume.storeLaws`).

A write comes to one of three things (`Volume.WriteStep`). Where it creates a file, the path leads
to that file afterwards, through the same links as before: a new entry hides nothing, so what led to
the free name leads to the entry now (`Node.RouteToFree`).
-/

namespace ImportSuffix

open Text (Bytes bytesOf)
open ImportSuffix.Path (PlainName)

/-! ### Changes one after the other -/

namespace Entries

theorem put_put (es : Entries) (name : Name) (n m : Node) :
    (es.put name n).put name m = es.put name m := by
  induction es with
  | nil => exact if_pos rfl
  | cons e rest ih =>
    obtain ⟨k, x⟩ := e
    by_cases hk : k = name
    · simp only [put, if_pos hk]
    · simp only [put, if_neg hk, ih]

theorem put_eq_self {es : Entries} {name : Name} {n : Node} (h : es.find? name = some n) :
    es.put name n = es := by
  induction es with
  | nil => cases h
  | cons e rest ih =>
    obtain ⟨k, x⟩ := e
    rw [find?_cons] at h
    by_cases hk : k = name
    · rw [if_pos hk.symm] at h
      cases h
      exact if_pos hk
    · rw [if_neg (Ne.symm hk)] at h
      rw [put, if_neg hk, ih h]

end Entries

namespace Node

variable {root root' : Node} {parent loc other : Location} {name : Name} {names : List Name}
  {links : Nat} {slash : Bool} {content : ByteArray} {writable : Bool}

/-- An update that would change nothing in the node at its location changes nothing. -/
theorem update_eq_self {f : Node → Node} (h : ∀ n, root.get? loc = some n → f n = n) :
    update f loc root = root := by
  induction loc generalizing root with
  | nil => rw [update_nil, h root (get?_nil root)]
  | cons name rest ih =>
    cases root with
    | file _ _ | link _ => rfl
    | dir listable entries =>
      simp only [update]
      cases hfind : Entries.find? entries name with
      | none => rfl
      | some m =>
        have hm : update f rest m = m := ih fun n hn => h n <| by
          rw [get?_cons, child?, hfind, Option.bind_some, hn]
        simp only [hm, Entries.put_eq_self hfind]

theorem update_update (f g : Node → Node) (loc : Location) (root : Node) :
    update f loc (update g loc root) = update (f ∘ g) loc root := by
  induction loc generalizing root with
  | nil => simp only [update_nil, Function.comp_apply]
  | cons name rest ih =>
    cases root with
    | file _ _ | link _ => rfl
    | dir listable entries =>
      cases hfind : Entries.find? entries name with
      | none => simp only [update, hfind]
      | some m => simp only [update, hfind, Entries.find?_put_self, Entries.put_put, ih]

/-- An update below a location is one of the node there. -/
theorem update_append (f : Node → Node) (loc below : Location) (root : Node) :
    update f (loc ++ below) root = update (update f below) loc root := by
  induction loc generalizing root with
  | nil => rw [List.nil_append, update_nil]
  | cons name rest ih =>
    cases root with
    | file _ _ | link _ => rfl
    | dir listable entries => simp only [List.cons_append, update, ih]

/-- New content for a file that has just been put into a directory. -/
theorem update_withContent_withEntry (hname : Path.isEntryName name = true)
    (old new : ByteArray) (n : Node) :
    update (withContent new) [name] (withEntry name (file old writable) n) =
      withEntry name (file new writable) n := by
  cases n with
  | file _ _ | link _ => rfl
  | dir listable entries =>
    simp only [withEntry, hname, if_true, update, Entries.find?_put_self, Entries.put_put,
      withContent]

/-! ### One more file -/

section

variable {α : Type} {g : Node → α}
  (hg : ∀ listable entries entries', g (dir listable entries) = g (dir listable entries'))
include hg

/-- A new file in a directory is seen at its own name only, by everything that does not see the
entries of a directory. -/
theorem map_get?_withEntry {n : Node} (hfree : n.get? [name] = none) (hother : other ≠ [name]) :
    ((withEntry name (file content writable) n).get? other).map g = (n.get? other).map g := by
  cases n with
  | file _ _ | link _ => rfl
  | dir listable entries =>
    rw [withEntry]
    split
    · cases other with
      | nil => exact congrArg some (hg _ _ _)
      | cons k rest =>
        rw [get?_cons, get?_cons, child?, child?]
        by_cases hk : k = name
        · -- There is nothing below a file, and was nothing where it is now.
          subst hk
          cases rest with
          | nil => exact absurd rfl hother
          | cons k' rest =>
            rw [get?_cons, child?] at hfree
            cases hfind : Entries.find? entries k with
            | none =>
              rw [Entries.find?_put_self, Option.bind_some, get?_cons]
              rfl
            | some m =>
              rw [hfind, Option.bind_some, get?_nil] at hfree
              cases hfree
        · rw [Entries.find?_put_of_ne _ _ hk]
    · rfl

/-- The same for a directory at a location. -/
theorem map_get?_update_withEntry (hfree : root.get? (parent ++ [name]) = none)
    (hother : other ≠ parent ++ [name]) :
    ((update (withEntry name (file content writable)) parent root).get? other).map g =
      (root.get? other).map g := by
  induction parent generalizing root other with
  | nil =>
    rw [update_nil]
    exact map_get?_withEntry hg hfree hother
  | cons k parent ih =>
    cases other with
    | nil =>
      -- A directory on the way keeps all but its entries.
      rw [get?_nil, get?_nil]
      cases root with
      | file _ _ | link _ => rfl
      | dir listable entries =>
        simp only [update]
        split
        · exact congrArg some (hg _ _ _)
        · rfl
    | cons k' other =>
      rw [get?_cons, get?_cons]
      by_cases hk : k' = k
      · subst hk
        rw [child?_update_self]
        rw [List.cons_append, get?_cons] at hfree
        cases hchild : root.child? k' with
        | none => rfl
        | some m =>
          rw [hchild, Option.bind_some] at hfree
          exact ih hfree fun h => hother (congrArg (k' :: ·) h)
      · rw [child?_update_of_ne _ parent root hk]

end

theorem get?_update_withEntry (hdir : root.isDirAt parent = true)
    (hname : Path.isEntryName name = true) :
    (update (withEntry name (file content writable)) parent root).get? (parent ++ [name]) =
      some (file content writable) := by
  rw [get?_update_append]
  rw [isDirAt] at hdir
  split at hdir
  · next listable entries hparent =>
    simp only [hparent, Option.map_some, Option.bind_some, withEntry, hname, if_true, get?_cons,
      child?, Entries.find?_put_self, get?_nil]
  · cases hdir

/-! ### Routes to a free name -/

/-- That everything in one tree stands in another one too, where there may be more. -/
def Within (root root' : Node) : Prop :=
  ∀ loc o, root.outline? loc = some o → root'.outline? loc = some o

theorem Within.isDirAt (h : root.Within root') (hdir : root.isDirAt loc = true) :
    root'.isDirAt loc = true := by
  obtain ⟨listable, hloc⟩ := isDirAt_eq_true_iff.1 hdir
  exact isDirAt_eq_true_iff.2 ⟨listable, h loc _ hloc⟩

/-- That names lead to a name that is free in a directory: once something stands there that is no
link, whatever else there is, they lead to it. -/
structure RouteToFree (root : Node) (parent : Location) (name : Name) (links : Nat) (slash : Bool)
    (loc : Location) (names : List Name) : Prop where
  isDirAt : root.isDirAt parent = true
  outline?_eq : root.outline? (parent ++ [name]) = none
  routeTo : ∀ {root' o}, root.Within root' → root'.outline? (parent ++ [name]) = some o →
    (∀ target, o ≠ .link target) → root'.RouteTo (parent ++ [name]) links slash loc names

/-- A route to a free name can be extended at its beginning as one to an entry can. -/
theorem RouteToFree.extend {links' : Nat} {slash' : Bool} {loc' : Location} {names' : List Name}
    (h : root.RouteToFree parent name links slash loc names)
    (hstep : ∀ root', root.Within root' →
      root'.RouteTo (parent ++ [name]) links slash loc names →
      root'.RouteTo (parent ++ [name]) links' slash' loc' names') :
    root.RouteToFree parent name links' slash' loc' names' :=
  ⟨h.isDirAt, h.outline?_eq, fun hwithin hentry hlink =>
    hstep _ hwithin (h.routeTo hwithin hentry hlink)⟩

/-- A walk that comes to a free name goes along such a route, if what it makes of links does. -/
theorem of_walk_free {follow : Location → Bytes → List Name → Bool → Except Cause Place}
    (hfollow : ∀ loc link target rest, root.isDirAt loc = true → PlainName link →
      root.outline? (loc ++ [link]) = some (.link target) →
      follow loc target rest slash = .ok (.free parent name) →
      root.RouteToFree parent name links slash loc (link :: rest))
    (h : root.walk .writing follow slash loc names = .ok (.free parent name)) :
    root.RouteToFree parent name links slash loc names := by
  induction names generalizing loc with
  | nil =>
    rw [walk, arrive] at h
    split at h <;> cases h
  | cons next rest ih =>
    rw [walk_cons] at h
    split at h
    · cases h
    · next listable hloc =>
      have hdir : root.isDirAt loc = true := isDirAt_eq_true_iff.2 ⟨listable, hloc⟩
      split at h
      · next hhere =>
        exact (ih h).extend fun _ hwithin hroute => hhere ▸ .here (hwithin.isDirAt hdir) hroute
      · next hhere =>
        split at h
        · next hup =>
          exact (ih h).extend fun _ hwithin hroute => hup ▸ .up (hwithin.isDirAt hdir) hroute
        · next hup =>
          split at h
          · cases h
          · next hslash =>
            split at h
            · cases h
            · next hlen =>
              have hname : PlainName next := ⟨Nat.le_of_not_lt hlen, hhere, hup⟩
              split at h
              · next hnone =>
                split at h
                · next hlast =>
                  -- The free name is the last one, and no slash follows it.
                  cases h
                  subst hlast
                  refine ⟨hdir, hnone, fun hwithin hentry hlink => ?_⟩
                  exact .enter (hwithin.isDirAt hdir) hname hentry hlink
                    (.arrive fun hs => absurd ⟨rfl, rfl, hs⟩ hslash)
                · cases h
              · next target hentry => exact hfollow loc next target rest hdir hname hentry h
              · next o hlink hentry =>
                exact (ih h).extend fun _ hwithin hroute =>
                  .enter (hwithin.isDirAt hdir) hname (hwithin _ _ hentry) hlink hroute
    · cases h

theorem of_walkLinks_free
    (h : root.walkLinks .writing links slash loc names = .ok (.free parent name)) :
    root.RouteToFree parent name links slash loc names := by
  induction links generalizing slash loc names with
  | zero =>
    refine of_walk_free (fun loc link target rest hdir hname hentry hfollow => ?_) h
    cases hfollow
  | succ links ih =>
    refine of_walk_free (fun loc link target rest hdir hname hentry hfollow => ?_) h
    exact (ih hfollow).extend fun _ hwithin hroute =>
      .follow (hwithin.isDirAt hdir) hname (hwithin _ _ hentry) hroute

end Node

namespace Volume

variable {v w : Volume} {path q : Bytes} {content new : ByteArray} {loc parent : Location}
  {name : Name} {result : Except Cause Unit} {text : String}

/-! ### Changes of a volume -/

theorem eq_of_root_eq (hroot : v.root = w.root) (hcwd : v.cwd = w.cwd) : v = w := by
  cases v
  cases w
  cases hroot
  cases hcwd
  rfl

/-- The volume with a new file of some content, open to writing, in the directory at a location. -/
def addFile (v : Volume) (parent : Location) (name : Name) (content : ByteArray) : Volume :=
  v.addEntry parent name (.file content true) (Node.wellFormed_file content true)

theorem setContent_eq_self {writable : Bool} (h : v.get? loc = some (.file content writable)) :
    v.setContent loc content = v :=
  eq_of_root_eq (Node.update_eq_self fun n hn => by
    cases h.symm.trans hn
    rfl) rfl

theorem setContent_setContent (v : Volume) (loc : Location) (old new : ByteArray) :
    (v.setContent loc old).setContent loc new = v.setContent loc new := by
  have hcomp : Node.withContent new ∘ Node.withContent old = Node.withContent new := by
    funext n
    cases n <;> rfl
  refine eq_of_root_eq ?_ rfl
  exact (Node.update_update _ _ loc v.root).trans (by rw [hcomp]; rfl)

theorem setContent_addFile (hname : Path.isEntryName name = true) (v : Volume) (parent : Location)
    (old new : ByteArray) :
    (v.addFile parent name old).setContent (parent ++ [name]) new = v.addFile parent name new := by
  have hcomp : Node.update (Node.withContent new) [name] ∘ Node.withEntry name (.file old true) =
      Node.withEntry name (.file new true) :=
    funext (Node.update_withContent_withEntry hname old new)
  refine eq_of_root_eq ?_ rfl
  calc Node.update (Node.withContent new) (parent ++ [name])
        (Node.update (Node.withEntry name (.file old true)) parent v.root)
    _ = Node.update (Node.update (Node.withContent new) [name]) parent
          (Node.update (Node.withEntry name (.file old true)) parent v.root) :=
      Node.update_append _ parent [name] _
    _ = Node.update (Node.withEntry name (.file new true)) parent v.root := by
      rw [Node.update_update, hcomp]

/-! ### What a write comes to -/

/-- That a path leads to a free name, where a file can be created. -/
structure LeadsToFree (v : Volume) (path : Bytes) (parent : Location) (name : Name) : Prop where
  follow_eq : v.follow .writing path = .ok (.free parent name)
  isEntryName : Path.isEntryName name = true

/-- What writing to a path comes to: the result and the volume after it. -/
inductive WriteStep (v : Volume) (path : Bytes) (content : ByteArray) :
    Except Cause Unit → Volume → Prop
  /-- The path leads to nothing that can be written to. -/
  | failed {cause : Cause} : WriteStep v path content (.error cause) v
  /-- The path leads to a file, which holds something else then. -/
  | replaced {loc : Location} {old : ByteArray} (h : v.LeadsToFile path loc old true) :
      WriteStep v path content (.ok ()) (v.setContent loc content)
  /-- The path leads to a free name, and a file is created. -/
  | created {parent : Location} {name : Name} (h : v.LeadsToFree path parent name) :
      WriteStep v path content (.ok ()) (v.addFile parent name content)

/-- What a path leads to for writing it leads to for reading, if that exists. -/
theorem locate_of_follow {purpose : Purpose} (h : v.follow purpose path = .ok (.node loc)) :
    v.locate path = .ok loc := by
  obtain ⟨hzero, hne, hlen⟩ := of_follow_eq_ok h
  rw [follow_eq purpose hzero hne hlen] at h
  exact locate_eq_ok_iff.2 ⟨hzero, hne, hlen, Node.of_walkLinks h⟩

theorem writeStep_write (v : Volume) (path : Bytes) (content : ByteArray) :
    v.WriteStep path content (v.write path content).1 (v.write path content).2 := by
  rw [write]
  split
  · exact .failed
  · next parent name hfollow =>
    split
    · next hname => exact .created ⟨hfollow, hname⟩
    · exact .failed
  · next loc hfollow =>
    split
    · next old hfile => exact .replaced ⟨locate_of_follow hfollow, hfile⟩
    · exact .failed
    · exact .failed
    · exact .failed

/-! ### The volume after a write -/

theorem LeadsToFile.setContent {old : ByteArray} {writable : Bool}
    (h : v.LeadsToFile path loc old writable) (new : ByteArray) :
    (v.setContent loc new).LeadsToFile path loc new writable := by
  have houtline := sameOutline_setContent v loc new
  refine ⟨(houtline.locate_eq path).trans h.locate_eq, get?_eq_file_iff.2 ⟨?_, ?_⟩⟩
  · exact (houtline.outline?_eq loc).trans h.outline?_eq
  · exact content?_setContent_self h.outline?_eq new

section

variable (h : v.LeadsToFree path parent name)
include h

theorem LeadsToFree.routeToFree :
    v.root.RouteToFree parent name maxLinks (Path.endsInSlash path) (v.start path)
      (Path.names path) := by
  have hfollow := h.follow_eq
  obtain ⟨hzero, hne, hlen⟩ := of_follow_eq_ok hfollow
  rw [Volume.follow_eq .writing hzero hne hlen] at hfollow
  exact Node.of_walkLinks_free hfollow

theorem LeadsToFree.outline?_eq : v.outline? (parent ++ [name]) = none :=
  h.routeToFree.outline?_eq

theorem LeadsToFree.get?_eq : v.get? (parent ++ [name]) = none :=
  Option.map_eq_none_iff.1 h.outline?_eq

theorem LeadsToFree.get?_addFile (content : ByteArray) :
    (v.addFile parent name content).get? (parent ++ [name]) = some (.file content true) :=
  Node.get?_update_withEntry h.routeToFree.isDirAt h.isEntryName

theorem LeadsToFree.outline?_addFile (content : ByteArray) (hloc : loc ≠ parent ++ [name]) :
    (v.addFile parent name content).outline? loc = v.outline? loc :=
  Node.map_get?_update_withEntry (fun _ _ _ => rfl) h.get?_eq hloc

theorem LeadsToFree.content?_addFile (content : ByteArray) (hloc : loc ≠ parent ++ [name]) :
    (v.addFile parent name content).content? loc = v.content? loc := by
  rw [content?_eq_join, content?_eq_join]
  exact congrArg Option.join
    (Node.map_get?_update_withEntry (fun _ _ _ => rfl) h.get?_eq hloc)

/-- The path leads to the file that is created. -/
theorem LeadsToFree.leadsToFile (content : ByteArray) :
    (v.addFile parent name content).LeadsToFile path (parent ++ [name]) content true := by
  have hget := h.get?_addFile content
  refine ⟨locate_eq_ok_iff.2 ?_, hget⟩
  obtain ⟨hzero, hne, hlen⟩ := of_follow_eq_ok h.follow_eq
  have hwithin : v.root.Within (v.addFile parent name content).root := by
    intro loc o hloc
    have hne : loc ≠ parent ++ [name] := by
      rintro rfl
      cases h.outline?_eq.symm.trans hloc
    exact (h.outline?_addFile content hne).trans hloc
  exact ⟨hzero, hne, hlen, h.routeToFree.routeTo hwithin (outline?_of_get? hget) nofun⟩

end

/-- That a volume is what another one becomes when a content is written to a location: there is a
file with it, which was a file before or was not there, and all else is as it was. -/
structure WrittenTo (v w : Volume) (dest : Location) (content : ByteArray) : Prop where
  get?_eq : w.get? dest = some (.file content true)
  before : v.outline? dest = some (.file true) ∨ v.outline? dest = none
  outline?_eq : ∀ loc, loc ≠ dest → w.outline? loc = v.outline? loc
  content?_eq : ∀ loc, loc ≠ dest → w.content? loc = v.content? loc
  cwd_eq : w.cwd = v.cwd

/-- A write that succeeds writes to the location to which the path leads afterwards. -/
theorem WriteStep.exists_writtenTo (h : v.WriteStep path content (.ok ()) w) :
    ∃ dest, v.WrittenTo w dest content ∧ w.locate path = .ok dest := by
  cases h with
  | @replaced dest old h =>
    have hfile := h.setContent content
    exact ⟨dest, ⟨hfile.get?_eq, .inl h.outline?_eq,
      fun loc _ => (sameOutline_setContent v dest content).outline?_eq loc,
      fun loc hloc => content?_setContent_of_ne v content hloc, rfl⟩, hfile.locate_eq⟩
  | @created parent name h =>
    have hfile := h.leadsToFile content
    exact ⟨parent ++ [name], ⟨hfile.get?_eq, .inr h.outline?_eq,
      fun loc hloc => h.outline?_addFile content hloc,
      fun loc hloc => h.content?_addFile content hloc, rfl⟩, hfile.locate_eq⟩

theorem LeadsToFree.write_eq (h : v.LeadsToFree path parent name) (content : ByteArray) :
    v.write path content = (.ok (), v.addFile parent name content) := by
  simp only [write, h.follow_eq, h.isEntryName, if_true]
  rfl

/-- Of two writes to a path only the second one counts. -/
theorem write_write (v : Volume) (path : Bytes) (old new : ByteArray) :
    (v.write path old).2.write path new = v.write path new := by
  have hstep := v.writeStep_write path old
  generalize (v.write path old).2 = w, (v.write path old).1 = result at hstep ⊢
  cases hstep with
  | failed => rfl
  | replaced h =>
    simp only [h.write_eq, (h.setContent old).write_eq, setContent_setContent, if_true]
  | created h =>
    rw [h.write_eq, (h.leadsToFile old).write_eq, setContent_addFile h.isEntryName, if_pos rfl]

/-- To where a write goes depends on where the path leads alone. -/
theorem write_congr (h : v.follow .writing q = v.follow .writing path) (content : ByteArray) :
    v.write q content = v.write path content := by
  rw [write, write, h]

/-! ### Texts -/

theorem readText_eq_ok_iff {op : String} :
    v.readText path op = .ok text ↔ v.read path = .ok text.toUTF8 := by
  constructor
  · intro h
    rw [readText] at h
    split at h
    · cases h
    · next content hread =>
      split at h
      · next htext =>
        cases h
        rw [hread, fromUTF8?_eq_some_iff.1 htext]
      · cases h
  · intro h
    simp only [readText, h, fromUTF8?_toUTF8]

/-- A text is written as its bytes are, and a failure told with the operation. -/
theorem writeText_eq (v : Volume) (path : Bytes) (text op : String) :
    v.writeText path text op =
      ((v.write path text.toUTF8).1.mapError fun cause => .io cause.text (some op),
        (v.write path text.toUTF8).2) := by
  rw [writeText]
  split
  · next h => rw [h]; rfl
  · next h => rw [h]; rfl

theorem writeText_eq_ok_iff {op : String} :
    v.writeText path text op = (.ok (), w) ↔ v.write path text.toUTF8 = (.ok (), w) := by
  rw [writeText_eq]
  obtain ⟨_ | _, _⟩ := v.write path text.toUTF8
  · constructor
    · intro h
      cases h
    · intro h
      cases h
  · constructor
    · intro h
      cases h
      rfl
    · intro h
      cases h
      rfl

theorem exists_of_writeText_eq_error {op : String} {f : Failure}
    (h : v.writeText path text op = (.error f, w)) :
    ∃ cause, v.write path text.toUTF8 = (.error cause, w) ∧ f = .io cause.text (some op) := by
  rw [writeText_eq] at h
  generalize v.write path text.toUTF8 = step at h ⊢
  obtain ⟨cause | _, _⟩ := step
  · cases h
    exact ⟨cause, rfl, rfl⟩
  · cases h

/-! ### The laws -/

/-- The laws of reading and writing texts at a path. -/
structure StoreLaws (v : Volume) (path : Bytes) : Prop where
  /-- What has been written is read, by every path that leads there now or that would have had its
  text written there. Nothing else is changed. -/
  written : ∀ text op w, v.writeText path text op = (.ok (), w) →
    ∃ dest, v.WrittenTo w dest text.toUTF8 ∧ w.locate path = .ok dest ∧
      ∀ q op', w.locate q = .ok dest ∨ v.follow .writing q = v.follow .writing path →
        w.readText q op' = .ok text
  /-- A write that fails changes nothing and tells the operation. -/
  failed : ∀ text op f w, v.writeText path text op = (.error f, w) →
    w = v ∧ f.code.text = "internal.io_error" ∧ f.details.get? "context" = some (.str op)
  /-- The text that is read has the bytes of the file, and writing it back changes nothing. -/
  read : ∀ text op, v.readText path op = .ok text →
    v.read path = .ok text.toUTF8 ∧ ∀ op', (v.writeText path text op').2 = v
  /-- Of two writes only the second one counts. -/
  overridden : ∀ old new op op',
    (v.writeText path old op).2.writeText path new op' = v.writeText path new op'

/-- Where a write has succeeded, its path reads what was written. -/
theorem readText_eq_of_write (h : v.write path text.toUTF8 = (.ok (), w)) (op : String) :
    w.readText path op = .ok text := by
  have hstep := v.writeStep_write path text.toUTF8
  rw [h] at hstep
  obtain ⟨dest, hwritten, hpath⟩ := hstep.exists_writtenTo
  exact readText_eq_ok_iff.2 (read_eq_ok_iff.2 ⟨dest, true, hpath, hwritten.get?_eq⟩)

/-- Reading and writing obey the laws on every volume and at every path, whatever links the path
goes along. -/
theorem storeLaws (v : Volume) (path : Bytes) : v.StoreLaws path where
  written text op w h := by
    have hwrite := writeText_eq_ok_iff.1 h
    have hstep := v.writeStep_write path text.toUTF8
    rw [hwrite] at hstep
    obtain ⟨dest, hwritten, hpath⟩ := hstep.exists_writtenTo
    refine ⟨dest, hwritten, hpath, fun q op' hq => ?_⟩
    rcases hq with hq | hq
    · exact readText_eq_ok_iff.2 (read_eq_ok_iff.2 ⟨dest, true, hq, hwritten.get?_eq⟩)
    · exact readText_eq_of_write ((write_congr hq _).trans hwrite) op'
  failed text op f w h := by
    obtain ⟨cause, hwrite, rfl⟩ := exists_of_writeText_eq_error h
    have hstep := v.writeStep_write path text.toUTF8
    rw [hwrite] at hstep
    cases hstep
    exact ⟨rfl, rfl, rfl⟩
  read text op h := by
    have hread := readText_eq_ok_iff.1 h
    refine ⟨hread, fun op' => ?_⟩
    obtain ⟨loc, writable, hfile⟩ := read_eq_ok_iff.1 hread
    rw [writeText_eq, hfile.write_eq]
    cases writable with
    | true => exact setContent_eq_self hfile.get?_eq
    | false => rfl
  overridden old new op op' := by
    rw [writeText_eq, writeText_eq, writeText_eq, write_write]

/-- A link that leads to a free name. -/
def danglingLink : Volume := empty.putLink (bytesOf "link") (bytesOf "file")

/-- Writing through the link creates the file at its end, which then reads what was written. -/
theorem storeLaws_danglingLink :
    danglingLink.contains (bytesOf "file") = false ∧
      (danglingLink.writeText (bytesOf "link") "text" "write").2.readText (bytesOf "file") "read" =
        .ok "text" := by
  refine ⟨by decide +kernel, ?_⟩
  have hlink : danglingLink.LeadsToFree (bytesOf "link") [] (bytesOf "file") :=
    ⟨by rfl, by decide +kernel⟩
  have hfile : danglingLink.LeadsToFree (bytesOf "file") [] (bytesOf "file") :=
    ⟨by rfl, by decide +kernel⟩
  have hwrite : danglingLink.writeText (bytesOf "link") "text" "write" =
      (.ok (), danglingLink.addFile [] (bytesOf "file") "text".toUTF8) :=
    writeText_eq_ok_iff.2 (hlink.write_eq _)
  obtain ⟨_, -, -, hread⟩ := (danglingLink.storeLaws (bytesOf "link")).written _ _ _ hwrite
  rw [hwrite]
  exact hread (bytesOf "file") "read" (.inr (hfile.follow_eq.trans hlink.follow_eq.symm))

end Volume

end ImportSuffix
