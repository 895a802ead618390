import ImportSuffix.Config.Basic
import ImportSuffix.Glob
import ImportSuffix.Volume.Leaves
import ImportSuffix.Volume.Resolve

/-!
# Discovery

The files that a run works on: everything below the root that is no directory and whose name matches
one of the patterns. The root may be reached through links; below it no link is followed, so a link
to a directory counts as a file like any other link. Directories that cannot be listed are passed
over.

The result is in ascending order of the names on the way from the root, compared one by one and byte
by byte, and holds each path once. It does not depend on the order in which directories list their
entries.
-/

namespace ImportSuffix

open Text (Bytes)

/-- Whether a file name matches one of the patterns. What is matched is the name as it would be
shown. -/
def matchesAny (patterns : List String) (name : Name) : Bool :=
  let shown := Text.encode (Text.decodeLossy name)
  patterns.any fun pattern => Glob.isMatch (Text.bytesOf pattern) shown

/-- Puts names in their place among ascending ones, unless they are there. -/
def insertNames (names : Location) : List Location → List Location
  | [] => [names]
  | other :: rest =>
    if names < other then names :: other :: rest
    else if names = other then other :: rest
    else other :: insertNames names rest

/-- Whether a directory below a root can be listed by its path. -/
def canList (root : Bytes) (names : Location) (listable : Bool) : Bool :=
  listable && (Path.joinAll root names).length ≤ Path.maxLength

namespace Volume

/-- What lies below a root that is no directory, by the names that lead to it from there. -/
def leavesBelow (v : Volume) (root : Bytes) : List Location :=
  match v.locate root with
  | .error _ => []
  | .ok loc =>
    match v.get? loc with
    | some (.dir listable entries) =>
      ((Node.dir listable entries).leavesAt (canList root) []).map Prod.fst
    | _ => []

/-- The names that lead from the root of a configuration to the files to work on, in ascending
order. -/
def discoverNames (v : Volume) (c : Config) : List Location :=
  let found := (v.leavesBelow c.root).filter fun names =>
    matchesAny c.patterns (names.getLast?.getD [])
  found.foldr insertNames []

/-- The paths of the files to work on, in ascending order. -/
def discover (v : Volume) (c : Config) : List Bytes :=
  (v.discoverNames c).map (Path.joinAll c.root)

end Volume

end ImportSuffix
