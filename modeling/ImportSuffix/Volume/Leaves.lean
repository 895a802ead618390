import ImportSuffix.Volume.Node

/-!
# The leaves of a tree

Everything in a tree that is not a directory, each with the names that lead to it. The walk enters
the directories that it is allowed to and never a link, so it is a recursion on the tree.
-/

namespace ImportSuffix.Node

/-- Whether a node is a directory. -/
def isDir : Node → Bool
  | dir _ _ => true
  | _ => false

mutual

/-- The leaves of a node at some names. A directory is entered if `enter` says so, which is told its
names and whether it can be listed. -/
def leavesAt (enter : Location → Bool → Bool) (names : Location) : Node → List (Location × Node)
  | file content writable => [(names, file content writable)]
  | link target => [(names, link target)]
  | dir listable entries =>
    if enter names listable then leavesOf enter names entries else []

/-- The leaves of the entries of a directory at some names. -/
def leavesOf (enter : Location → Bool → Bool) (names : Location) :
    List (Name × Node) → List (Location × Node)
  | [] => []
  | (name, node) :: rest =>
    leavesAt enter (names ++ [name]) node ++ leavesOf enter names rest

end

end ImportSuffix.Node
