import ImportSuffix.Volume.Access
import ImportSuffix.Volume.Leaves

/-!
# Building and listing volumes

Operations by which a volume is set up and looked at: an entry of any kind is put at a path, with
the directories on the way to it; an entry is removed with all that is below it; and everything
below the working directory is listed.
-/

namespace ImportSuffix.Volume

open Text (Bytes)

/-- An empty directory. -/
def emptyDir : Node := .dir true []

theorem wellFormed_emptyDir : emptyDir.WellFormed :=
  Node.wellFormed_dir List.nodup_nil (fun _ hk => nomatch hk) (fun _ _ hx => nomatch hx)

/-- The volume with nothing in it. -/
def empty : Volume := ⟨emptyDir, [], wellFormed_emptyDir⟩

/-- The volume with the directory at a path as its working directory. -/
def enter (v : Volume) (path : Bytes) : Volume :=
  match v.locate path with
  | .ok loc => { v with cwd := loc }
  | .error _ => v

/-- The directory in which the last name of a path is an entry, and that name. The path need not
exist, but the directory has to. -/
def parentOf (v : Volume) (path : Bytes) : Option (Location × Name) :=
  match (Path.names path).getLast? with
  | none => none
  | some name =>
    match v.root.resolve .existing maxLinks false
        (if Path.isAbsolute path then [] else v.cwd) (Path.names path).dropLast with
    | .ok (.node loc) => some (loc, name)
    | _ => none

/-- The volume with an empty directory at a path, if the name is free. Slashes at the end demand a
directory, and it is one that is made, so they do not matter. -/
def makeDir (v : Volume) (path : Bytes) : Volume :=
  match v.follow .writing (Path.dropSlashes path) with
  | .ok (.free parent name) =>
    v.addEntry parent name emptyDir wellFormed_emptyDir
  | _ => v

/-- The paths of the directories on the way to a path, outermost first. -/
def ancestors (path : Bytes) : List Bytes :=
  let names := (Path.names path).dropLast
  let absolute := if Path.isAbsolute path then [Path.slash] else []
  (List.range names.length).map fun i =>
    absolute ++ [Path.slash].intercalate (names.take (i + 1))

/-- The volume with the directories on the way to a path. -/
def makeParents (v : Volume) (path : Bytes) : Volume :=
  (ancestors path).foldl makeDir v

/-- The volume with a directory at a path and the directories on the way to it. -/
def putDir (v : Volume) (path : Bytes) : Volume :=
  (v.makeParents path).makeDir path

/-- The volume with a file at a path and the directories on the way to it. -/
def putFile (v : Volume) (path : Bytes) (content : ByteArray) : Volume :=
  ((v.makeParents path).write path content).2

/-- The volume with a node at a path and the directories on the way to it. -/
def putNode (v : Volume) (path : Bytes) (node : Node) (h : node.WellFormed) : Volume :=
  let v := v.makeParents path
  match v.parentOf path with
  | some (loc, name) => v.addEntry loc name node h
  | none => v

/-- The volume with a link at a path and the directories on the way to it. -/
def putLink (v : Volume) (path target : Bytes) : Volume :=
  v.putNode path (.link target) (Node.wellFormed_link target)

/-- The volume with a file at a path that cannot be written to. -/
def putSealed (v : Volume) (path : Bytes) (content : ByteArray) : Volume :=
  v.putNode path (.file content false) (Node.wellFormed_file content false)

/-- The volume without what the last name of a path means: a file, a link, or a directory with all
that is below it. -/
def remove (v : Volume) (path : Bytes) : Volume :=
  match v.parentOf path with
  | some (loc, name) => v.removeEntry loc name
  | none => v

/-- Everything below the working directory that is no directory, with its path from there, in the
order of the paths. -/
def listing (v : Volume) : List (Bytes × Node) :=
  match v.get? v.cwd with
  | none => []
  | some n =>
    let leaves := n.leavesAt (fun _ _ => true) []
    (leaves.map fun (names, leaf) => ([Path.slash].intercalate names, leaf)).mergeSort
      fun a b => a.1 ≤ b.1

end ImportSuffix.Volume
