import ImportSuffix.Pattern.Match

/-!
# Templates

A template is the text that takes the place of a match. It holds references to the groups of the
pattern: `$name` with the longest run of letters, digits and underscores, or with braces around any
name, and `$$` for a dollar sign. A dollar sign that begins none of these stands for itself, and a
group that is unknown or took no part stands for nothing.

A template is read once, into pieces; filling it in looks the groups up and never reads the result
again, so the text of a group may itself hold dollar signs.
-/

namespace ImportSuffix

/-- What a template says about a group: its number or its name. -/
inductive GroupRef
  | number (n : Nat)
  | name (s : String)
  deriving Repr, DecidableEq

/-- A piece of a template. -/
inductive TemplatePiece
  | char (c : Char)
  | group (ref : GroupRef)
  deriving Repr, DecidableEq

/-- A template, as its pieces in order. -/
structure Template where
  pieces : List TemplatePiece
  deriving Repr, DecidableEq

/-- The characters that a group name without braces may have. -/
def isGroupNameChar (c : Char) : Bool :=
  c.isAlphanum || c == '_'

namespace GroupRef

/-- The number that decimal digits write, if there is at least one and there is nothing else. -/
def number? (text : List Char) : Option Nat :=
  if text.isEmpty || !text.all Char.isDigit then none
  else some (text.foldl (fun n d => n * 10 + (d.toNat - 48)) 0)

/-- The reference that a text between braces or after a dollar sign stands for: a decimal number,
which may have a plus sign, is a group number, and everything else is a name. -/
def ofText (text : List Char) : GroupRef :=
  let unsigned := match text with
    | '+' :: rest => rest
    | other => other
  match number? unsigned with
  | some n => .number n
  | none => .name (String.ofList text)

/-- The text of the group in a match; nothing if the group is unknown or took no part. -/
def lookup (ref : GroupRef) (m : Match) : List Char :=
  match ref with
  | .number n => (m.groupAt n).getD []
  | .name s => (m.groupNamed s).getD []

end GroupRef

namespace Template

/-- The piece that the text after a dollar sign makes with it, and how much of that text it
takes. -/
def readReference (text : List Char) : TemplatePiece × List Char :=
  match text with
  | '$' :: rest => (.char '$', rest)
  | '\x7b' :: rest =>
    match rest.dropWhile (· != '\x7d') with
    | _ :: after => (.group (.ofText (rest.takeWhile (· != '\x7d'))), after)
    | [] => (.char '$', text)
  | _ =>
    match text.takeWhile isGroupNameChar with
    | [] => (.char '$', text)
    | name => (.group (.ofText name), text.dropWhile isGroupNameChar)

/-- The pieces of a text. Each takes at least one character, so the length of the text bounds their
number. -/
def readPieces : Nat → List Char → List TemplatePiece
  | 0, _ => []
  | _, [] => []
  | fuel + 1, '$' :: rest => (readReference rest).1 :: readPieces fuel (readReference rest).2
  | fuel + 1, c :: rest => .char c :: readPieces fuel rest

/-- The template that a text is the written form of. Every text is one. -/
def read (text : String) : Template :=
  ⟨readPieces text.length text.toList⟩

/-- The pieces of a text without references. -/
def chars (text : String) : List TemplatePiece :=
  text.toList.map .char

/-- What a piece stands for in a match. -/
def fillPiece (m : Match) : TemplatePiece → List Char
  | .char c => [c]
  | .group ref => ref.lookup m

/-- The text that a template makes of a match. -/
def fill (t : Template) (m : Match) : List Char :=
  t.pieces.flatMap (fillPiece m)

@[simp] theorem fill_nil (m : Match) : fill ⟨[]⟩ m = [] := rfl

@[simp] theorem fill_cons (piece : TemplatePiece) (rest : List TemplatePiece) (m : Match) :
    fill ⟨piece :: rest⟩ m = fillPiece m piece ++ fill ⟨rest⟩ m := rfl

end Template

end ImportSuffix
