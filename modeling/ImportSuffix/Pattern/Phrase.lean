import ImportSuffix.Pattern.Extent

/-!
# Patterns as they are written

A `Phrase` is a pattern on the way from its written form to the form that is run. It still knows the
bounds of its repetitions, and it is kept in a normal form in which it can be told whether two
phrases are alike.

The normal form is more than tidiness, because it decides what a pattern prefers. Alternatives that
all begin with the same pieces share them: `.*1|.*2` means `.*(?:1|2)`, so the text of `.*` is
settled before the choice is made, and a longer `.*` is preferred to the left alternative. The
other rules bring phrases into the form in which they are compared: a row in a row and alternatives
among alternatives are flat, the empty text in a row is dropped and characters in a row are one
piece, characters to choose from are a class, and what can only match the empty text is repeated at
most once.
-/

namespace ImportSuffix

/-- A pattern as it is written. -/
inductive Phrase
  /-- The empty text. -/
  | empty
  /-- Certain characters in a row. -/
  | chars (cs : List Char)
  /-- One character of a class. -/
  | one (s : CharClass)
  /-- The empty text at certain places. -/
  | anchor (a : Anchor)
  /-- One phrase after another. -/
  | seq (p q : Phrase)
  /-- Either of two phrases, the left one for preference. -/
  | alt (p q : Phrase)
  /-- A phrase at least `low` times and at most `high` times, or without a limit. -/
  | repeated (g : Greed) (low : Nat) (high : Option Nat) (p : Phrase)
  /-- A phrase whose text is remembered under a number and perhaps a name. -/
  | group (index : Nat) (name : Option String) (p : Phrase)
  deriving Repr

namespace Phrase

/-- Whether two phrases are alike: built in the same way from classes with the same members. -/
def alike : Phrase → Phrase → Bool
  | empty, empty => true
  | chars cs, chars ds => cs == ds
  | one s, one t => s.extent == t.extent
  | anchor a, anchor b => a == b
  | seq p q, seq p' q' => alike p p' && alike q q'
  | alt p q, alt p' q' => alike p p' && alike q q'
  | repeated g low high p, repeated g' low' high' p' =>
    g == g' && low == low' && high == high' && alike p p'
  | group index name p, group index' name' p' => index == index' && name == name' && alike p p'
  | _, _ => false

/-- Whether a phrase can match nothing but the empty text. -/
def isVoid : Phrase → Bool
  | empty => true
  | chars cs => cs.isEmpty
  | one _ => false
  | anchor _ => true
  | seq p q => p.isVoid && q.isVoid
  | alt p q => p.isVoid && q.isVoid
  | repeated _ _ _ p => p.isVoid
  | group _ _ p => p.isVoid

/-- A class; one that has a single member is that character. -/
def ofClass (s : CharClass) : Phrase :=
  match s.extent with
  | [(first, last)] => if first = last then chars [.ofNat first] else one s
  | _ => one s

/-! ### Rows and alternatives -/

/-- The pieces that a phrase is a row of. -/
def pieces : Phrase → List Phrase
  | empty => []
  | seq p q => p.pieces ++ q.pieces
  | p => [p]

/-- Phrases in a row, none of which is a row itself. -/
def ofPieces : List Phrase → Phrase
  | [] => empty
  | [p] => p
  | p :: rest => seq p (ofPieces rest)

/-- A piece before other pieces; characters before characters become one piece. -/
def consPiece : Phrase → List Phrase → List Phrase
  | chars cs, chars ds :: rest => chars (cs ++ ds) :: rest
  | p, rest => p :: rest

/-- Phrases in a row. -/
def row (ps : List Phrase) : Phrase :=
  ofPieces ((ps.flatMap pieces).foldr consPiece [])

/-- The alternatives that a phrase offers. -/
def alternatives : Phrase → List Phrase
  | alt p q => p.alternatives ++ q.alternatives
  | p => [p]

/-- Phrases to choose from, none of which offers a choice itself. -/
def ofAlternatives : List Phrase → Phrase
  | [] => empty
  | [p] => p
  | p :: rest => alt p (ofAlternatives rest)

/-- The character that a phrase is, if it is one. -/
def char? : Phrase → Option Char
  | chars [c] => some c
  | _ => none

/-- The class that a phrase is, if it is one of several characters. -/
def class? : Phrase → Option CharClass
  | one s => some s
  | _ => none

/-- The class that is meant by phrases to choose from: if all are single characters, or if all are
classes. -/
def classOf? (ps : List Phrase) : Option CharClass :=
  match ps.mapM char? with
  | some cs => some ⟨false, cs.map fun c => .range c c⟩
  | none => (ps.mapM class?).map fun classes =>
    .ofExtent (.ofList (classes.flatMap CharClass.extent))

/-- Phrases to choose from that share no beginning. -/
def either (ps : List Phrase) : Phrase :=
  match ps.flatMap alternatives with
  | [p] => p
  | ps => match classOf? ps with
    | some s => ofClass s
    | none => ofAlternatives ps

/-- How many pieces two rows have in common at their beginning. -/
def sharedLength : List Phrase → List Phrase → Nat
  | p :: ps, q :: qs => if alike p q then sharedLength ps qs + 1 else 0
  | _, _ => 0

/-- With how many pieces all rows begin, if there are several and each has several pieces. -/
def sharedBeginning : List (List Phrase) → Nat
  | first :: other :: rest =>
    if (first :: other :: rest).all (2 ≤ ·.length) then
      (other :: rest).foldl (fun n row => min n (sharedLength first row)) first.length
    else 0
  | _ => 0

/-- Phrases to choose from. The pieces with which all of them begin come before the choice. -/
def choice (ps : List Phrase) : Phrase :=
  let rows := (ps.flatMap alternatives).map pieces
  match rows, sharedBeginning rows with
  | first :: _, n + 1 =>
    row (first.take (n + 1) ++ [either (rows.map fun pieces => ofPieces (pieces.drop (n + 1)))])
  | _, _ => either ps

/-! ### Repetitions -/

/-- A phrase at least `low` times and at most `high` times, or without a limit. -/
def times (g : Greed) (low : Nat) (high : Option Nat) (p : Phrase) : Phrase :=
  let (low, high) := if p.isVoid then (min low 1, some (min (high.getD 1) 1)) else (low, high)
  if high = some 0 then empty
  else if low = 1 ∧ high = some 1 then p
  else repeated g low high p

/-! ### The pattern that is meant -/

/-- The pattern that a phrase means. -/
def pattern : Phrase → Pattern
  | empty => .empty
  | chars cs => .sequence (cs.map fun c => .one (.only c))
  | one s => .one s
  | anchor a => .anchor a
  | seq p q => .seq p.pattern q.pattern
  | alt p q => .alt p.pattern q.pattern
  | repeated g low high p => p.pattern.times g low high
  | group index name p => .group index name p.pattern

end Phrase

end ImportSuffix
