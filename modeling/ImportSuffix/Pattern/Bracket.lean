import ImportSuffix.Pattern.ClassAlgebra
import ImportSuffix.Pattern.Escape

/-!
# Classes in brackets

Between brackets stand the members of a class: characters, ranges, escapes, classes in brackets of
their own, and names such as `[:alpha:]`. A `^` before them takes all other characters instead. The
members so far can be combined with those that follow: `&&` keeps what both have, `--` takes the
second away from the first, and `~~` keeps what only one of them has, from left to right.

Some signs are members where they can mean nothing else. Hyphens at the beginning are, whatever
comes after them, so none of them begins a range. If there are none, a closing bracket at the
beginning is a member too, which leaves no way to write an empty class. So `[--a]` has a hyphen and
an `a`, `[]-a]` a bracket, a hyphen and an `a`, and `[-]` a hyphen. A hyphen before the closing
bracket is a member as well.
-/

namespace ImportSuffix

/-- A way to combine two classes. -/
inductive ClassOperation
  /-- What both have. -/
  | inter
  /-- What the first has and the second has not. -/
  | diff
  /-- What only one of them has. -/
  | symmDiff

/-- The class that two classes are combined to. -/
def ClassOperation.apply : ClassOperation → CharClass → CharClass → CharClass
  | .inter => .inter
  | .diff => .diff
  | .symmDiff => .symmDiff

/-- A class that is being read. -/
structure ClassDraft where
  /-- Whether the class has all characters but those that are read. -/
  negated : Bool
  /-- What stands before the last operation, and that operation. -/
  left : Option (CharClass × ClassOperation)
  /-- The items after it, latest first. -/
  items : List ClassItem

namespace ClassDraft

/-- A draft with more items. -/
def add (d : ClassDraft) (items : List ClassItem) : ClassDraft :=
  { d with items := items.reverseAux d.items }

/-- The class of all that has been read. -/
def value (d : ClassDraft) : CharClass :=
  match d.left with
  | none => ⟨false, d.items.reverse⟩
  | some (s, op) => op.apply s ⟨false, d.items.reverse⟩

/-- A draft with an operation that waits for its second class. -/
def operate (d : ClassDraft) (op : ClassOperation) : ClassDraft :=
  { d with left := some (d.value, op), items := [] }

/-- The class at its closing bracket. -/
def finish (d : ClassDraft) : CharClass :=
  if d.negated then d.value.complement else d.value

/-! ### Members -/

/-- A character or what an escape stands for, and the text after it. -/
def readMember : List Char → Option (ClassItem × List Char)
  | '\\' :: c :: rest =>
    match Escape.item? c with
    | some item => some (item, rest)
    | none => (Escape.char? c).map fun d => (.range d d, rest)
  | ['\\'] => none
  | c :: rest => some (.range c c, rest)
  | [] => none

/-- The range from one item to another, if both are characters and in order. -/
def range? : ClassItem → ClassItem → Option ClassItem
  | .range first _, .range last _ =>
    if first.toNat ≤ last.toNat then some (.range first last) else none
  | _, _ => none

/-- A member, or two characters with a hyphen between them. A hyphen before the closing bracket or
before another hyphen makes no range. -/
def readItem (text : List Char) : Option (ClassItem × List Char) := do
  let (first, rest) ← readMember text
  match rest with
  | '-' :: c :: after =>
    if c = ']' || c = '-' then return (first, rest)
    let (last, rest) ← readMember (c :: after)
    let item ← range? first last
    return (item, rest)
  | _ => return (first, rest)

/-- The ASCII characters of a kind that has a name. -/
def named? : String → Option (List (Char × Char))
  | "alnum" => some [('0', '9'), ('A', 'Z'), ('a', 'z')]
  | "alpha" => some [('A', 'Z'), ('a', 'z')]
  | "ascii" => some [('\x00', '\x7f')]
  | "blank" => some [('\t', '\t'), (' ', ' ')]
  | "cntrl" => some [('\x00', '\x1f'), ('\x7f', '\x7f')]
  | "digit" => some [('0', '9')]
  | "graph" => some [('!', '~')]
  | "lower" => some [('a', 'z')]
  | "print" => some [(' ', '~')]
  | "punct" => some [('!', '/'), (':', '@'), ('[', '\x60'), ('{', '~')]
  | "space" => some [('\t', '\r'), (' ', ' ')]
  | "upper" => some [('A', 'Z')]
  | "word" => some [('0', '9'), ('A', 'Z'), ('_', '_'), ('a', 'z')]
  | "xdigit" => some [('0', '9'), ('A', 'F'), ('a', 'f')]
  | _ => none

/-- A name between colons, after the opening bracket; a `^` before the name takes all other
characters. -/
def readNamed : List Char → Option (CharClass × List Char)
  | ':' :: rest =>
    let negated := rest.head? == some '^'
    let text := if negated then rest.tail else rest
    match text.dropWhile (· != ':') with
    | ':' :: ']' :: rest =>
      (named? (String.ofList (text.takeWhile (· != ':')))).map fun ranges =>
        (⟨negated, ranges.map fun (first, last) => .range first last⟩, rest)
    | _ => none
  | _ => none

/-! ### Whole classes -/

/-- What stands after the opening bracket before the members proper: perhaps a `^`, and then hyphens
or a closing bracket that are members because of their place. -/
def readStart (text : List Char) : ClassDraft × List Char :=
  let negated := text.head? == some '^'
  let text := if negated then text.tail else text
  match text.takeWhile (· == '-'), text.dropWhile (· == '-') with
  | [], ']' :: rest => (⟨negated, none, [.range ']' ']']⟩, rest)
  | hyphens, rest => (⟨negated, none, hyphens.map fun c => .range c c⟩, rest)

/-- The rest of a class up to its closing bracket. -/
def readRest : Nat → ClassDraft → List Char → Option (CharClass × List Char)
  | 0, _, _ => none
  | fuel + 1, d, text =>
    match text with
    | ']' :: rest => some (d.finish, rest)
    | '&' :: '&' :: rest => readRest fuel (d.operate .inter) rest
    | '-' :: '-' :: rest => readRest fuel (d.operate .diff) rest
    | '~' :: '~' :: rest => readRest fuel (d.operate .symmDiff) rest
    | '[' :: rest =>
      match readNamed rest with
      | some (s, rest) => readRest fuel (d.add s.members) rest
      | none => do
        let (inner, rest) := readStart rest
        let (s, rest) ← readRest fuel inner rest
        readRest fuel (d.add s.members) rest
    | text => do
      let (item, rest) ← readItem text
      readRest fuel (d.add [item]) rest

end ClassDraft

/-- A class, after its opening bracket. Every step of the reader takes at least one character, so
the length of the text bounds their number. -/
def CharClass.read (text : List Char) : Option (CharClass × List Char) :=
  let (d, rest) := ClassDraft.readStart text
  ClassDraft.readRest (text.length + 1) d rest

end ImportSuffix
