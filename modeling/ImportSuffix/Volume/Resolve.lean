import ImportSuffix.Volume.Walk

/-!
# Where a path leads

A volume is a tree of files and the location of its working directory, from which relative paths
start. A path is followed name by name (see `ImportSuffix.Volume.Walk`) through at most forty links.

A slash at the end of a path, or of the target of the link that the path ends in, demands a
directory.

A path is followed either to something that exists or, for writing, to a place that may be free. In
the second case it may lead to a free name in a directory that exists, but it must not end in a
slash, since what is written is a file.
-/

namespace ImportSuffix

open Text (Bytes)

/-- A tree of files with a working directory. Its directories are well-formed. -/
structure Volume where
  root : Node
  cwd : Location
  wellFormed : root.WellFormed

namespace Volume

/-- How many links a path may lead through. -/
def maxLinks : Nat := 40

/-- Where a path leads. -/
def follow (v : Volume) (purpose : Purpose) (path : Bytes) : Except Cause Place :=
  if path.contains 0 then .error .zeroByte
  else if path.isEmpty then .error .notFound
  else if Path.maxLength < path.length then .error .nameTooLong
  else v.root.resolve purpose maxLinks (Path.endsInSlash path)
    (if Path.isAbsolute path then [] else v.cwd) (Path.names path)

/-- The location of what exists at a path. -/
def locate (v : Volume) (path : Bytes) : Except Cause Location :=
  match v.follow .existing path with
  | .ok (.node loc) => .ok loc
  | .ok (.free _ _) => .error .notFound
  | .error cause => .error cause

/-- The node at a location. -/
def get? (v : Volume) (loc : Location) : Option Node := v.root.get? loc

/-- Whether something exists at a path. A link that leads nowhere does not count. -/
def contains (v : Volume) (path : Bytes) : Bool :=
  match v.locate path with
  | .ok _ => true
  | .error _ => false

end Volume

end ImportSuffix
