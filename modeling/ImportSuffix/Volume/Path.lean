import ImportSuffix.Text.Utf8

/-!
# Paths

A path is a byte string in which slashes separate the names. Two slashes in a row separate no more
than one; one at the beginning makes the path absolute, and one at the end demands a directory. A
`Location` is a list of names that leads from the root of a volume straight to a place, with no
steps back and no links on the way.
-/

namespace ImportSuffix

open Text (Bytes)

/-- The name of an entry in a directory. -/
abbrev Name := Bytes

/-- The names that lead from the root of a volume to a place in it. -/
abbrev Location := List Name

namespace Path

/-- The byte that separates names. -/
def slash : UInt8 := 0x2F

/-- The name of a directory in itself. -/
def here : Name := [0x2E]

/-- The name of the directory around a directory. -/
def up : Name := [0x2E, 0x2E]

/-- The longest path that can be followed, in bytes. -/
def maxLength : Nat := 4095

/-- The longest name, in bytes. -/
def maxNameLength : Nat := 255

/-- The pieces between the slashes, empty ones included. -/
def split : Bytes → List Bytes
  | [] => [[]]
  | b :: rest =>
    if b = slash then [] :: split rest
    else match split rest with
      | [] => [[b]]
      | piece :: pieces => (b :: piece) :: pieces

/-- The names in a path. -/
def names (path : Bytes) : List Name :=
  (split path).filter (!·.isEmpty)

/-- Whether a path begins at the root of the volume. -/
def isAbsolute (path : Bytes) : Bool := path.head? == some slash

/-- Whether a path demands a directory. -/
def endsInSlash (path : Bytes) : Bool := path.getLast? == some slash

/-- A path without the slashes at its end. -/
def dropSlashes (path : Bytes) : Bytes := (path.reverse.dropWhile (· == slash)).reverse

/-- Whether a name can be the name of an entry: it is neither empty nor too long, has no slash and
no zero byte, and is not one of the names that every directory has for itself and for the one around
it. -/
def isEntryName (name : Name) : Bool :=
  !name.isEmpty && name.length ≤ maxNameLength && !name.contains slash && !name.contains 0 &&
    name != here && name != up

/-- The path one name further: the name after a slash, unless the path ends in one. -/
def join (path : Bytes) (name : Name) : Bytes :=
  if endsInSlash path then path ++ name else path ++ slash :: name

/-- The path one name further, written backwards, as is the path that it starts from. -/
def joinBackwards (path : Bytes) (name : Name) : Bytes :=
  if path.head? == some slash then name.reverseAux path else name.reverseAux (slash :: path)

/-- The path several names further. It grows at its end, so it is put together backwards. -/
def joinAll (path : Bytes) (names : List Name) : Bytes :=
  (names.foldl joinBackwards path.reverse).reverse

theorem joinBackwards_reverse (path : Bytes) (name : Name) :
    joinBackwards path.reverse name = (join path name).reverse := by
  have hend : (path.reverse.head? == some slash) = endsInSlash path := by
    rw [endsInSlash, List.head?_reverse]
  rw [joinBackwards, join, hend]
  cases endsInSlash path <;> simp [List.reverseAux_eq]

@[simp] theorem joinAll_nil (path : Bytes) : joinAll path [] = path := by simp [joinAll]

@[simp] theorem joinAll_cons (path : Bytes) (name : Name) (names : List Name) :
    joinAll path (name :: names) = joinAll (join path name) names := by
  simp only [joinAll, List.foldl_cons, joinBackwards_reverse]

theorem split_ne_nil (path : Bytes) : split path ≠ [] := by
  cases path with
  | nil => simp [split]
  | cons b rest =>
    rw [split]
    split
    · simp
    · split <;> simp

/-- No piece holds a slash. -/
theorem slash_notMem_of_mem_split {path piece : Bytes} (h : piece ∈ split path) :
    slash ∉ piece := by
  induction path generalizing piece with
  | nil => simp [split] at h; simp [h]
  | cons b rest ih =>
    rw [split] at h
    split at h
    · rcases List.mem_cons.1 h with rfl | h
      · simp
      · exact ih h
    · next hb =>
      split at h
      · next hs => exact absurd hs (split_ne_nil rest)
      · next p ps hs =>
        rcases List.mem_cons.1 h with rfl | h
        · have := ih (hs ▸ List.mem_cons_self : p ∈ split rest)
          simp [this, Ne.symm hb]
        · exact ih (hs ▸ List.mem_cons_of_mem _ h)

/-- A name in a path is not empty and holds no slash. -/
theorem of_mem_names {path : Bytes} {name : Name} (h : name ∈ names path) :
    name ≠ [] ∧ slash ∉ name := by
  rw [names, List.mem_filter] at h
  exact ⟨by simpa using h.2, slash_notMem_of_mem_split h.1⟩

end Path

end ImportSuffix
