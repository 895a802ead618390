/-!
# JSON values

Values without fractions: numbers are integers. An object is a list of members, since the answers
of the program have members in a fixed order. `Json.canonical` is the form of a value that has been
taken for a map from keys to values: the keys strictly ascend, by their code points, and of several
members with one key the last one counts.
-/

namespace ImportSuffix

/-- A JSON value without fractions. -/
inductive Json
  | null
  | bool (b : Bool)
  | num (n : Int)
  | str (s : String)
  | arr (items : List Json)
  | obj (members : List (String × Json))
  deriving Repr, BEq, Inhabited

namespace Json

/-- A list of texts. -/
def strings (texts : List String) : Json := arr (texts.map str)

/-- Adds a member in front of members with ascending keys, in its place by the order of the keys.
A member with the same key comes later in the text and wins. -/
def insertMember (key : String) (value : Json) : List (String × Json) → List (String × Json)
  | [] => [(key, value)]
  | (k, v) :: rest =>
    if key < k then (key, value) :: (k, v) :: rest
    else if key = k then (k, v) :: rest
    else (k, v) :: insertMember key value rest

mutual

/-- The value with the members of every object in ascending order of their keys. -/
def canonical : Json → Json
  | arr items => arr (canonicalItems items)
  | obj members => obj (canonicalMembers members)
  | other => other

/-- The canonical forms of the items of an array. -/
def canonicalItems : List Json → List Json
  | [] => []
  | item :: rest => item.canonical :: canonicalItems rest

/-- The members of an object in ascending order of their keys. -/
def canonicalMembers : List (String × Json) → List (String × Json)
  | [] => []
  | (key, value) :: rest => insertMember key value.canonical (canonicalMembers rest)

end

/-- The value of the member of that name, if the value is an object and has one. -/
def get? (j : Json) (key : String) : Option Json :=
  match j with
  | obj members => members.lookup key
  | _ => none

/-- The text, if the value is one. -/
def str? : Json → Option String
  | str s => some s
  | _ => none

@[simp] theorem canonical_null : canonical null = null := rfl
@[simp] theorem canonical_bool (b : Bool) : canonical (bool b) = bool b := rfl
@[simp] theorem canonical_num (n : Int) : canonical (num n) = num n := rfl
@[simp] theorem canonical_str (s : String) : canonical (str s) = str s := rfl

@[simp] theorem canonical_obj (members : List (String × Json)) :
    canonical (obj members) = obj (canonicalMembers members) := rfl

@[simp] theorem canonical_arr (items : List Json) :
    canonical (arr items) = arr (items.map canonical) := by
  rw [canonical]
  congr 1
  induction items with
  | nil => rfl
  | cons item rest ih => rw [canonicalItems, ih, List.map_cons]

end Json

end ImportSuffix
