import ImportSuffix.Proofs.JoinedPath
import ImportSuffix.Proofs.Outline

/-!
# Routes

A route is the way that names lead to something that exists, with one rule for each kind of step. A
walk arrives exactly where a route leads (`of_walkLinks`, `RouteTo.walkLinks_eq`), so what is to be
shown of paths that lead somewhere is shown by induction on a route.

Two facts come out of it. A path that leads to a file leads there for writing too
(`Volume.follow_writing`). And the path of a directory joined with the name of an entry leads to
that entry, if it is no link (`Volume.locate_join`).
-/

namespace ImportSuffix

open Text (Bytes)
open ImportSuffix.Path (PlainName EntryName)

namespace Node

/-- A route to a location through at most so many links, from a location along names. If `slash`
holds, a directory has to stand at its end. -/
inductive RouteTo (root : Node) (dest : Location) : Nat → Bool → Location → List Name → Prop
  /-- There are no more names. -/
  | arrive {links slash} (h : slash = true → root.isDirAt dest = true) :
      RouteTo root dest links slash dest []
  /-- The name of a directory in itself leads nowhere else. -/
  | here {links slash loc rest} (hdir : root.isDirAt loc = true)
      (h : RouteTo root dest links slash loc rest) :
      RouteTo root dest links slash loc (Path.here :: rest)
  /-- The name of the directory around a directory leads back. -/
  | up {links slash loc rest} (hdir : root.isDirAt loc = true)
      (h : RouteTo root dest links slash loc.dropLast rest) :
      RouteTo root dest links slash loc (Path.up :: rest)
  /-- The name of an entry that is no link leads to it. -/
  | enter {links slash loc name rest o} (hdir : root.isDirAt loc = true) (hname : PlainName name)
      (hentry : root.outline? (loc ++ [name]) = some o) (hlink : ∀ target, o ≠ .link target)
      (h : RouteTo root dest links slash (loc ++ [name]) rest) :
      RouteTo root dest links slash loc (name :: rest)
  /-- The name of a link is replaced by the names of its target. -/
  | follow {links slash loc name rest target} (hdir : root.isDirAt loc = true)
      (hname : PlainName name) (hentry : root.outline? (loc ++ [name]) = some (.link target))
      (h : RouteTo root dest links (if rest = [] then slash || Path.endsInSlash target else slash)
        (if Path.isAbsolute target then [] else loc) (Path.names target ++ rest)) :
      RouteTo root dest (links + 1) slash loc (name :: rest)

variable {root : Node} {purpose : Purpose} {links : Nat} {slash : Bool} {loc dest mid : Location}
  {name : Name} {names rest : List Name} {o : Outline} {target : Bytes}

/-! ### Walks that arrive -/

/-- A walk that arrives goes along a route, if what it makes of links does. -/
theorem of_walk {follow : Location → Bytes → List Name → Bool → Except Cause Place}
    (hfollow : ∀ loc name target rest, root.isDirAt loc = true → PlainName name →
      root.outline? (loc ++ [name]) = some (.link target) →
      follow loc target rest slash = .ok (.node dest) →
      RouteTo root dest links slash loc (name :: rest))
    (h : root.walk purpose follow slash loc names = .ok (.node dest)) :
    RouteTo root dest links slash loc names := by
  induction names generalizing loc with
  | nil =>
    rw [walk, arrive] at h
    split at h
    · cases h
    · next hdir =>
      cases h
      refine .arrive fun hslash => ?_
      simpa [hslash] using hdir
  | cons name rest ih =>
    rw [walk_cons] at h
    split at h
    · cases h
    · next listable hloc =>
      have hdir : root.isDirAt loc = true := isDirAt_eq_true_iff.2 ⟨listable, hloc⟩
      split at h
      · next hhere => exact hhere ▸ .here hdir (ih h)
      · next hhere =>
        split at h
        · next hup => exact hup ▸ .up hdir (ih h)
        · next hup =>
          split at h
          · cases h
          · split at h
            · cases h
            · next hlen =>
              have hname : PlainName name := ⟨Nat.le_of_not_lt hlen, hhere, hup⟩
              split at h
              · split at h <;> cases h
              · next target hentry => exact hfollow loc name target rest hdir hname hentry h
              · next o hlink hentry => exact .enter hdir hname hentry hlink (ih h)
    · cases h

theorem of_walkLinks (h : root.walkLinks purpose links slash loc names = .ok (.node dest)) :
    RouteTo root dest links slash loc names := by
  induction links generalizing slash loc names with
  | zero =>
    refine of_walk (fun loc name target rest hdir hname hentry hfollow => ?_) h
    cases hfollow
  | succ links ih =>
    exact of_walk (fun loc name target rest hdir hname hentry hfollow =>
      .follow hdir hname hentry (ih hfollow)) h

/-! ### Walking along a route -/

/-- A walk through links is a plain one with something to do about them. -/
theorem exists_walk (root : Node) (purpose : Purpose) (links : Nat) :
    ∃ follow, root.walkLinks purpose links = root.walk purpose follow := by
  cases links <;> exact ⟨_, rfl⟩

theorem walkLinks_nil (h : slash = true → root.isDirAt loc = true) :
    root.walkLinks purpose links slash loc [] = .ok (.node loc) := by
  obtain ⟨follow, hwalk⟩ := exists_walk root purpose links
  rw [hwalk, walk, arrive]
  cases slash with
  | false => rfl
  | true => rw [h rfl]; rfl

theorem walkLinks_here (hdir : root.isDirAt loc = true) :
    root.walkLinks purpose links slash loc (Path.here :: rest) =
      root.walkLinks purpose links slash loc rest := by
  obtain ⟨follow, hwalk⟩ := exists_walk root purpose links
  obtain ⟨listable, hloc⟩ := isDirAt_eq_true_iff.1 hdir
  simp only [hwalk, walk_cons, hloc, if_true]

theorem walkLinks_up (hdir : root.isDirAt loc = true) :
    root.walkLinks purpose links slash loc (Path.up :: rest) =
      root.walkLinks purpose links slash loc.dropLast rest := by
  obtain ⟨follow, hwalk⟩ := exists_walk root purpose links
  obtain ⟨listable, hloc⟩ := isDirAt_eq_true_iff.1 hdir
  have hne : Path.up ≠ Path.here := by decide
  simp only [hwalk, walk_cons, hloc, if_neg hne, if_true]

/-- In a directory a walk looks at the entry of a name, unless it is to write where a slash demands
a directory. -/
theorem walk_plainName {follow : Location → Bytes → List Name → Bool → Except Cause Place}
    (hdir : root.isDirAt loc = true) (hname : PlainName name)
    (hpurpose : purpose = .existing ∨ slash = false) :
    root.walk purpose follow slash loc (name :: rest) =
      match root.outline? (loc ++ [name]) with
      | none => if rest = [] then .ok (.free loc name) else .error .notFound
      | some (.link target) => follow loc target rest slash
      | some _ => root.walk purpose follow slash (loc ++ [name]) rest := by
  obtain ⟨listable, hloc⟩ := isDirAt_eq_true_iff.1 hdir
  have hallowed : ¬ (purpose = .writing ∧ rest = [] ∧ slash = true) := by
    intro h
    rcases hpurpose with hp | hs
    · simp [hp] at h
    · simp [hs] at h
  have hstep := root.walk_cons purpose follow slash loc name rest
  simp only [hloc, if_neg hname.ne_here, if_neg hname.ne_up, if_neg hallowed,
    if_neg (Nat.not_lt.2 hname.length_le)] at hstep
  exact hstep

theorem walkLinks_enter (hdir : root.isDirAt loc = true) (hname : PlainName name)
    (hpurpose : purpose = .existing ∨ slash = false)
    (hentry : root.outline? (loc ++ [name]) = some o) (hlink : ∀ target, o ≠ .link target) :
    root.walkLinks purpose links slash loc (name :: rest) =
      root.walkLinks purpose links slash (loc ++ [name]) rest := by
  obtain ⟨follow, hwalk⟩ := exists_walk root purpose links
  rw [hwalk, walk_plainName hdir hname hpurpose, hentry]
  cases o with
  | link target => exact absurd rfl (hlink target)
  | file _ | dir _ => rfl

theorem walkLinks_follow (hdir : root.isDirAt loc = true) (hname : PlainName name)
    (hpurpose : purpose = .existing ∨ slash = false)
    (hentry : root.outline? (loc ++ [name]) = some (.link target)) :
    root.walkLinks purpose (links + 1) slash loc (name :: rest) =
      root.walkLinks purpose links (if rest = [] then slash || Path.endsInSlash target else slash)
        (if Path.isAbsolute target then [] else loc) (Path.names target ++ rest) := by
  rw [walkLinks, walk_plainName hdir hname hpurpose, hentry]

/-- Where a slash is demanded a route ends in a directory. -/
theorem RouteTo.isDirAt (h : RouteTo root dest links slash loc names) (hslash : slash = true) :
    root.isDirAt dest = true := by
  induction h with
  | arrive h => exact h hslash
  | here _ _ ih | up _ _ ih | enter _ _ _ _ _ ih => exact ih hslash
  | follow _ _ _ _ ih =>
    refine ih ?_
    split <;> simp [hslash]

/-- A walk along a route arrives at its end, for writing too if that is no directory. -/
theorem RouteTo.walkLinks_eq (h : RouteTo root dest links slash loc names)
    (hpurpose : purpose = .existing ∨ root.isDirAt dest = false) :
    root.walkLinks purpose links slash loc names = .ok (.node dest) := by
  have hslash {links slash loc names} (h : RouteTo root dest links slash loc names) :
      purpose = .existing ∨ slash = false := by
    refine hpurpose.imp_right fun hdest => ?_
    cases slash with
    | false => rfl
    | true => rw [h.isDirAt rfl] at hdest; cases hdest
  induction h with
  | arrive h => exact walkLinks_nil h
  | here hdir h ih => rw [walkLinks_here hdir, ih]
  | up hdir h ih => rw [walkLinks_up hdir, ih]
  | enter hdir hname hentry hlink h ih =>
    rw [walkLinks_enter hdir hname (hslash h) hentry hlink, ih]
  | follow hdir hname hentry h ih =>
    have hslash := hslash (.follow hdir hname hentry h)
    rw [walkLinks_follow hdir hname hslash hentry, ih]

/-- A route can be continued. The links on its way are then spent. -/
theorem RouteTo.append (h : RouteTo root mid links slash loc names) :
    ∃ links' ≤ links, ∀ slash' more dest, more ≠ [] → RouteTo root dest links' slash' mid more →
      RouteTo root dest links slash' loc (names ++ more) := by
  induction h with
  | @arrive links _ _ => exact ⟨links, Nat.le_refl _, fun _ _ _ _ h => h⟩
  | here hdir _ ih =>
    obtain ⟨links', hle, ih⟩ := ih
    exact ⟨links', hle, fun slash' more dest hmore h => .here hdir (ih slash' more dest hmore h)⟩
  | up hdir _ ih =>
    obtain ⟨links', hle, ih⟩ := ih
    exact ⟨links', hle, fun slash' more dest hmore h => .up hdir (ih slash' more dest hmore h)⟩
  | enter hdir hname hentry hlink _ ih =>
    obtain ⟨links', hle, ih⟩ := ih
    exact ⟨links', hle, fun slash' more dest hmore h =>
      .enter hdir hname hentry hlink (ih slash' more dest hmore h)⟩
  | @follow links slash loc name rest target hdir hname hentry _ ih =>
    obtain ⟨links', hle, ih⟩ := ih
    refine ⟨links', Nat.le_succ_of_le hle, fun slash' more dest hmore h => ?_⟩
    rw [List.cons_append]
    refine .follow hdir hname hentry ?_
    -- With more names behind it the link is not the last one, so its own slash does not count.
    have hroute := ih slash' more dest hmore h
    rw [List.append_assoc] at hroute
    rwa [if_neg (List.append_ne_nil_of_right_ne_nil rest hmore)]

end Node

namespace Volume

variable {v : Volume} {path : Bytes} {loc : Location} {name : Name} {o : Outline}

/-- The location from which the names of a path lead on. -/
def start (v : Volume) (path : Bytes) : Location := if Path.isAbsolute path then [] else v.cwd

theorem follow_eq (purpose : Purpose) (hzero : 0 ∉ path) (hne : path ≠ [])
    (hlen : path.length ≤ Path.maxLength) :
    v.follow purpose path = v.root.walkLinks purpose maxLinks (Path.endsInSlash path)
      (v.start path) (Path.names path) := by
  simp [follow, start, hzero, hne, Nat.not_lt.2 hlen]

/-- A path that leads anywhere holds no zero byte, is not empty and is not too long. -/
theorem of_follow_eq_ok {purpose : Purpose} {place : Place}
    (h : v.follow purpose path = .ok place) :
    0 ∉ path ∧ path ≠ [] ∧ path.length ≤ Path.maxLength := by
  rw [follow] at h
  split at h
  · cases h
  · next hzero =>
    split at h
    · cases h
    · next hempty =>
      split at h
      · cases h
      · next hlen => exact ⟨by simpa using hzero, by simpa using hempty, Nat.le_of_not_lt hlen⟩

/-- A path leads to a node exactly if it can be followed and there is a route. -/
theorem locate_eq_ok_iff : v.locate path = .ok loc ↔
    0 ∉ path ∧ path ≠ [] ∧ path.length ≤ Path.maxLength ∧
      v.root.RouteTo loc maxLinks (Path.endsInSlash path) (v.start path) (Path.names path) := by
  constructor
  · intro h
    have hfollow : v.follow .existing path = .ok (.node loc) := by
      rw [locate] at h
      split at h
      · next hfollow => cases h; exact hfollow
      · cases h
      · cases h
    obtain ⟨hzero, hne, hlen⟩ := of_follow_eq_ok hfollow
    rw [follow_eq .existing hzero hne hlen] at hfollow
    exact ⟨hzero, hne, hlen, Node.of_walkLinks hfollow⟩
  · intro h
    obtain ⟨hzero, hne, hlen, hroute⟩ := h
    rw [locate, follow_eq .existing hzero hne hlen, hroute.walkLinks_eq (.inl rfl)]

/-- A path that leads to a file leads there for writing too. -/
theorem follow_writing {writable : Bool} (h : v.locate path = .ok loc)
    (hfile : v.outline? loc = some (.file writable)) :
    v.follow .writing path = .ok (.node loc) := by
  obtain ⟨hzero, hne, hlen, hroute⟩ := locate_eq_ok_iff.1 h
  have hdir : v.root.isDirAt loc = false := by
    rw [← Bool.not_eq_true, Node.isDirAt_eq_true_iff]
    intro hdir
    obtain ⟨listable, hdir⟩ := hdir
    have hsame := hfile.symm.trans hdir
    cases hsame
  rw [follow_eq .writing hzero hne hlen, hroute.walkLinks_eq (.inr hdir)]

/-- The path of a directory, joined with the name of an entry that is no link, leads to the entry if
it is not too long. -/
theorem locate_join (hpath : v.locate path = .ok loc) (hdir : v.root.isDirAt loc = true)
    (hname : EntryName name) (hentry : v.outline? (loc ++ [name]) = some o)
    (hlink : ∀ target, o ≠ .link target) (hlen : (Path.join path name).length ≤ Path.maxLength) :
    v.locate (Path.join path name) = .ok (loc ++ [name]) := by
  obtain ⟨hzero, hne, -, hroute⟩ := locate_eq_ok_iff.1 hpath
  obtain ⟨links, -, happend⟩ := hroute.append
  have hlast : v.root.RouteTo (loc ++ [name]) links false loc [name] :=
    .enter hdir hname.toPlainName hentry hlink (.arrive fun h => nomatch h)
  refine locate_eq_ok_iff.2 ⟨Path.zero_notMem_join hzero hname, Path.join_ne_nil hne name, hlen, ?_⟩
  have hstart : v.start (Path.join path name) = v.start path := by
    rw [start, start, Path.isAbsolute_join hne]
  rw [Path.endsInSlash_join path hname, Path.names_join path hname, hstart]
  exact happend false [name] _ (List.cons_ne_nil _ _) hlast

end Volume

end ImportSuffix
