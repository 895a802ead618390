import ImportSuffix.Volume.Cause
import ImportSuffix.Volume.Node

/-!
# Following names

Following a path means to go from directory to directory, name by name. A link is replaced by the
names of its target, which lead on from the directory that holds the link. At most so many links are
followed, so the recursion is one over the names with a bound on the links around it.

`Node.walkLinks` says where names lead. It looks up each directory on the way from the root of the
tree, which takes long where directories are deep. `Node.resolve` gives the same answer
(`resolve_eq`) and keeps the nodes on the way in a `Trail` instead.
-/

namespace ImportSuffix

open Text (Bytes)

/-- Where a path leads. -/
inductive Place
  /-- To the node at a location. -/
  | node (loc : Location)
  /-- To a free name in the directory at a location. -/
  | free (parent : Location) (name : Name)
  deriving Repr, DecidableEq

/-- What a path is followed for. -/
inductive Purpose
  /-- For something that exists. -/
  | existing
  /-- For a place to write to, which may be free. -/
  | writing
  deriving Repr, DecidableEq

namespace Node

/-- Whether a directory stands at a location. -/
def isDirAt (root : Node) (loc : Location) : Bool :=
  match root.get? loc with
  | some (dir _ _) => true
  | _ => false

/-- The place at the end of the names: if the path ends in a slash, it has to be a directory. -/
def arrive (root : Node) (slash : Bool) (loc : Location) : Except Cause Place :=
  match slash && !root.isDirAt loc with
  | true => .error .notDirectory
  | false => .ok (.node loc)

/-- Follows names from a location. `slash` says whether the path ends in a slash. A link is left to
`follow`, which is told the directory with the link, the target, the names after the link and
`slash`. -/
def walk (root : Node) (purpose : Purpose)
    (follow : Location → Bytes → List Name → Bool → Except Cause Place) (slash : Bool) :
    Location → List Name → Except Cause Place
  | loc, [] => root.arrive slash loc
  | loc, name :: rest =>
    match root.get? loc with
    | none => .error .notFound
    | some (dir _ entries) =>
      if name = Path.here then walk root purpose follow slash loc rest
      else if name = Path.up then walk root purpose follow slash loc.dropLast rest
      else if purpose = .writing ∧ rest = [] ∧ slash = true then .error .isDirectory
      else if Path.maxNameLength < name.length then .error .nameTooLong
      else match Entries.find? entries name with
        | none => if rest = [] then .ok (.free loc name) else .error .notFound
        | some (link target) => follow loc target rest slash
        | some _ => walk root purpose follow slash (loc ++ [name]) rest
    | some _ => .error .notDirectory

/-- Follows names from a location through at most so many links. -/
def walkLinks (root : Node) (purpose : Purpose) :
    Nat → Bool → Location → List Name → Except Cause Place
  | 0 => walk root purpose fun _ _ _ _ => .error .tooManyLinks
  | links + 1 => walk root purpose fun loc target rest slash =>
      walkLinks root purpose links
        (if rest = [] then slash || Path.endsInSlash target else slash)
        (if Path.isAbsolute target then [] else loc)
        (Path.names target ++ rest)

/-! ### Trails -/

/-- The names and nodes on the way from the root of a tree to a place in it, innermost first. -/
abbrev Trail := List (Name × Node)

/-- Where a trail ends. -/
def trailEnd (root : Node) : Trail → Node
  | [] => root
  | (_, n) :: _ => n

/-- The location to which a trail leads. -/
def trailLocation (trail : Trail) : Location := (trail.map Prod.fst).reverse

/-- Whether each name on a trail is an entry of the node before it. -/
def IsTrail (root : Node) : Trail → Prop
  | [] => True
  | (name, n) :: trail => (root.trailEnd trail).child? name = some n ∧ IsTrail root trail

/-- The trail from the end of another one along a location, if there is a node. -/
def trailTo (root : Node) : Trail → Location → Option Trail
  | trail, [] => some trail
  | trail, name :: rest =>
    match (root.trailEnd trail).child? name with
    | some n => trailTo root ((name, n) :: trail) rest
    | none => none

/-- Follows names from the end of a trail, as `walk` does from a location. -/
def walkOn (root : Node) (purpose : Purpose)
    (follow : Trail → Bytes → List Name → Bool → Except Cause Place) (slash : Bool) :
    Trail → List Name → Except Cause Place
  | trail, [] =>
    match slash, root.trailEnd trail with
    | false, _ => .ok (.node (trailLocation trail))
    | true, dir _ _ => .ok (.node (trailLocation trail))
    | true, _ => .error .notDirectory
  | trail, name :: rest =>
    match root.trailEnd trail with
    | dir _ entries =>
      if name = Path.here then walkOn root purpose follow slash trail rest
      else if name = Path.up then walkOn root purpose follow slash trail.tail rest
      else if purpose = .writing ∧ rest = [] ∧ slash = true then .error .isDirectory
      else if Path.maxNameLength < name.length then .error .nameTooLong
      else match Entries.find? entries name with
        | none => if rest = [] then .ok (.free (trailLocation trail) name) else .error .notFound
        | some (link target) => follow trail target rest slash
        | some n => walkOn root purpose follow slash ((name, n) :: trail) rest
    | _ => .error .notDirectory

/-- Follows names from the end of a trail through at most so many links. -/
def walkLinksOn (root : Node) (purpose : Purpose) :
    Nat → Bool → Trail → List Name → Except Cause Place
  | 0 => walkOn root purpose fun _ _ _ _ => .error .tooManyLinks
  | links + 1 => walkOn root purpose fun trail target rest slash =>
      walkLinksOn root purpose links
        (if rest = [] then slash || Path.endsInSlash target else slash)
        (if Path.isAbsolute target then [] else trail)
        (Path.names target ++ rest)

/-- Where names lead from a location through at most so many links. -/
def resolve (root : Node) (purpose : Purpose) (links : Nat) (slash : Bool) (start : Location)
    (names : List Name) : Except Cause Place :=
  match root.trailTo [] start with
  | some trail => root.walkLinksOn purpose links slash trail names
  | none => root.walkLinks purpose links slash start names

variable {root : Node} {trail : Trail}

theorem isTrail_nil (root : Node) : root.IsTrail [] := trivial

theorem IsTrail.tail (h : root.IsTrail trail) : root.IsTrail trail.tail := by
  cases trail with
  | nil => exact h
  | cons _ _ => exact h.2

/-- The node at the end of a trail is the one at its location. -/
theorem IsTrail.get? (h : root.IsTrail trail) :
    root.get? (trailLocation trail) = some (root.trailEnd trail) := by
  induction trail with
  | nil => simp [trailLocation, trailEnd]
  | cons step trail ih =>
    obtain ⟨name, n⟩ := step
    have hloc : trailLocation ((name, n) :: trail) = trailLocation trail ++ [name] := by
      simp [trailLocation]
    rw [hloc, get?_append, ih h.2, Option.bind_some, get?_cons, h.1, Option.bind_some, get?_nil]
    rfl

theorem trailTo_eq_some {trail' : Trail} {loc : Location} (h : root.IsTrail trail)
    (ht : root.trailTo trail loc = some trail') :
    root.IsTrail trail' ∧ trailLocation trail' = trailLocation trail ++ loc := by
  induction loc generalizing trail with
  | nil => cases ht; exact ⟨h, by simp⟩
  | cons name rest ih =>
    rw [trailTo] at ht
    split at ht
    · next n hn =>
      have hn : root.IsTrail ((name, n) :: trail) := ⟨hn, h⟩
      obtain ⟨h', hloc⟩ := ih hn ht
      exact ⟨h', by rw [hloc]; simp [trailLocation]⟩
    · cases ht

theorem walkOn_eq (purpose : Purpose)
    {follow' : Trail → Bytes → List Name → Bool → Except Cause Place}
    {follow : Location → Bytes → List Name → Bool → Except Cause Place}
    (hfollow : ∀ trail target rest slash, root.IsTrail trail →
      follow' trail target rest slash = follow (trailLocation trail) target rest slash)
    (slash : Bool) (names : List Name) (h : root.IsTrail trail) :
    root.walkOn purpose follow' slash trail names =
      root.walk purpose follow slash (trailLocation trail) names := by
  induction names generalizing trail with
  | nil =>
    simp only [walkOn, walk, arrive, isDirAt, h.get?]
    cases slash <;> cases root.trailEnd trail <;> rfl
  | cons name rest ih =>
    simp only [walkOn, walk, h.get?]
    cases hend : root.trailEnd trail with
    | file _ _ | link _ => rfl
    | dir listable entries =>
      have htail : (trailLocation trail).dropLast = trailLocation trail.tail := by
        cases trail <;> simp [trailLocation]
      simp only [ih h, ih h.tail, htail]
      split
      · rfl
      · split
        · rfl
        · split
          · rfl
          · split
            · rfl
            · cases hfind : Entries.find? entries name with
              | none => rfl
              | some n =>
                have hn : root.IsTrail ((name, n) :: trail) := ⟨by simp [hend, child?, hfind], h⟩
                have hloc : trailLocation ((name, n) :: trail) = trailLocation trail ++ [name] := by
                  simp [trailLocation]
                cases n with
                | link target => exact hfollow _ _ _ _ h
                | file _ _ | dir _ _ => simp only [ih hn, hloc]

theorem walkLinksOn_eq (purpose : Purpose) (links : Nat) (slash : Bool) (names : List Name)
    (h : root.IsTrail trail) :
    root.walkLinksOn purpose links slash trail names =
      root.walkLinks purpose links slash (trailLocation trail) names := by
  induction links generalizing slash trail names with
  | zero =>
    unfold walkLinksOn walkLinks
    exact walkOn_eq purpose (fun _ _ _ _ _ => by rfl) slash names h
  | succ links ih =>
    unfold walkLinksOn walkLinks
    refine walkOn_eq purpose (fun trail target rest slash h => ?_) slash names h
    cases Path.isAbsolute target with
    | true => exact ih _ _ (isTrail_nil root)
    | false => exact ih _ _ h

/-- Keeping the nodes on the way does not change where names lead. -/
@[simp] theorem resolve_eq (root : Node) (purpose : Purpose) (links : Nat) (slash : Bool)
    (start : Location) (names : List Name) :
    root.resolve purpose links slash start names =
      root.walkLinks purpose links slash start names := by
  unfold resolve
  split
  · next trail h =>
    obtain ⟨ht, hloc⟩ := trailTo_eq_some (isTrail_nil root) h
    rw [walkLinksOn_eq purpose links slash names ht, hloc]
    rfl
  · rfl

end Node

end ImportSuffix
