import ImportSuffix.Pattern.Basic
import ImportSuffix.Pattern.Search

/-!
# Matching

A pattern is run at a place in a text with a continuation that says what has to hold after it. The
run tries the ways to match in the pattern's order of preference and hands each to the continuation
until one is accepted, so the first success is the preferred match of the whole.

Repetitions of a pattern that may match the empty text need a rule, or they would go on for ever.
The rule is that a run passes no branch point twice at one place. The branch points are the
alternatives, options and repetitions in a pattern, numbered from left to right. A second pass is
not taken, even where it would be another way through the pattern: in `(a?b*?)+` the round that
follows an `a` finds the decision of `b*?` already made, so it cannot take a `b`.

In a pattern that can be empty in one way at most, and so in each of its parts, no run comes to a
branch point twice without a character between. Such a pattern is run by a plain search, all others
by a wary one (see `ImportSuffix.Pattern.Search`).
-/

namespace ImportSuffix

/-- A place in a text: the character before it, the text after it and its distance from the start
in characters. -/
structure Cursor where
  prev : Option Char
  rest : List Char
  pos : Nat
  deriving Repr, DecidableEq

namespace Cursor

/-- The start of a text. -/
def ofText (text : List Char) : Cursor := ⟨none, text, 0⟩

/-- The place one character further, if `c` and then `rest` follow. -/
def next (here : Cursor) (c : Char) (rest : List Char) : Cursor :=
  ⟨some c, rest, here.pos + 1⟩

/-- The text between a place and a later one. -/
def upTo (start stop : Cursor) : List Char :=
  start.rest.take (stop.pos - start.pos)

/-- Whether a neighbour of a place is a word character; the ends of the text are none. -/
def isWordSide : Option Char → Bool
  | some c => Text.isWord c
  | none => false

/-- Whether a place is one that the anchor means. -/
def satisfies (here : Cursor) : Anchor → Bool
  | .textStart => here.prev.isNone
  | .textEnd => here.rest.isEmpty
  | .wordBoundary holds => (isWordSide here.prev != isWordSide here.rest.head?) == holds
  | .among marks n => (marks.getD here.pos .none).has n

end Cursor

/-- What a group remembers: its number and name, and the places where it began and ended. -/
structure Capture where
  index : Nat
  name : Option String
  start : Cursor
  stop : Cursor
  deriving Repr

/-- The text of a group. -/
def Capture.text (c : Capture) : List Char := c.start.upTo c.stop

/-- The state of a run: a place in the text and the groups closed so far, latest first. -/
structure MatchState where
  place : Cursor
  captures : List Capture
  deriving Repr

section

variable {m : Type → Type} [Search m] {α : Type}

/-- Going on or stopping, whichever is preferred, and the other if that fails. -/
@[inline] def Greed.attempt (g : Greed) (on stop : Unit → m α) : m α :=
  match g with
  | .greedy => orElse on stop
  | .lazy => orElse stop on

namespace Pattern

/-- The decision between a further round of a repetition and its end, made again after every round,
at the branch point of that number. There can be at most as many rounds as there are characters in
`left`, the text that was left at the first decision, since a round without a character leads back
to the decision at the place where it was made. -/
@[specialize] def rounds (g : Greed) (n : Nat) (body : MatchState → (MatchState → m α) → m α) :
    List Char → MatchState → (MatchState → m α) → m α
  | [], s, k => passing n fun _ => k s
  | _ :: left, s, k =>
    passing n fun _ =>
      g.attempt (fun _ => body s fun t => rounds g n body left t k) fun _ => k s

/-- Runs a pattern from a state: the ways to match are handed to the continuation in the order of
preference, until it accepts one. The number is that of the pattern's first branch point. -/
@[specialize] def run : Pattern → Nat → MatchState → (MatchState → m α) → m α
  | empty, _, s, k => k s
  | one cls, _, s, k =>
    match s.place.rest with
    | [] => fail
    | c :: rest =>
      if cls.contains c then further fun _ => k ⟨s.place.next c rest, s.captures⟩ else fail
  | anchor a, _, s, k => if s.place.satisfies a then k s else fail
  | seq p q, n, s, k => run p n s fun t => run q (n + p.branches) t k
  | alt p q, n, s, k =>
    passing n fun _ =>
      orElse (fun _ => run p (n + 1) s k) fun _ => run q (n + 1 + p.branches) s k
  | optional g p, n, s, k =>
    passing n fun _ => g.attempt (fun _ => run p (n + 1) s k) fun _ => k s
  | plus g p, n, s, k =>
    run p (n + 1) s fun t => rounds g n (fun s k => run p (n + 1) s k) t.place.rest t k
  | many g p, n, s, k => rounds g n (fun s k => run p (n + 1) s k) s.place.rest s k
  | group index name p, n, s, k =>
    run p n s fun t => k ⟨t.place, ⟨index, name, s.place, t.place⟩ :: t.captures⟩

end Pattern

end

namespace Pattern

/-- The preferred match of a pattern that begins at a place. -/
def matchAt (p : Pattern) (here : Cursor) : Option MatchState :=
  if p.isSteady then p.run 0 ⟨here, []⟩ some
  else (p.run (m := Wary) 0 ⟨here, []⟩ succeed .none).1

end Pattern

/-- A match in a text: where it begins, where it ends and what its groups remember. -/
structure Match where
  start : Cursor
  stop : Cursor
  captures : List Capture
  deriving Repr

namespace Match

/-- The text that is matched. -/
def text (m : Match) : List Char := m.start.upTo m.stop

/-- Whether the text that is matched is empty. -/
def isEmpty (m : Match) : Bool := m.start.pos == m.stop.pos

/-- Whether some group of that name took part, even with the empty text. -/
def hasGroup (m : Match) (name : String) : Bool :=
  m.captures.any fun c => c.name == some name

/-- The text of the group of that number, as its last round left it; zero means the whole match. -/
def groupAt (m : Match) (index : Nat) : Option (List Char) :=
  if index = 0 then some m.text
  else (m.captures.find? fun c => c.index == index).map Capture.text

/-- The text of the group of that name, as its last round left it. -/
def groupNamed (m : Match) (name : String) : Option (List Char) :=
  (m.captures.find? fun c => c.name == some name).map Capture.text

end Match

/-- A part of a text as a search sees it: one character outside all matches, or a match. -/
inductive Segment
  | plain (c : Char)
  | found (m : Match)
  deriving Repr

/-- The text that a segment covers. -/
def Segment.source : Segment → List Char
  | .plain c => [c]
  | .found m => m.text

namespace Pattern

/-- The match that a search takes at a place, if the preferred match there ends in a state. Directly
after a match an empty one does not count. -/
def take (here : Cursor) (stop : Option MatchState) (afterMatch : Bool) : Option Match :=
  match stop with
  | some s =>
    if s.place.pos = here.pos && afterMatch then none else some ⟨here, s.place, s.captures⟩
  | none => none

/-- The match that a search takes at a place, if any. -/
def takeAt (p : Pattern) (here : Cursor) (afterMatch : Bool) : Option Match :=
  take here (p.matchAt here) afterMatch

end Pattern

/-- Cuts the text after a place into matches and the characters between them, leftmost matches
first, where `take` says which match is taken at a place (and whether that is directly after
another match is the flag's to say). After an empty match the character that follows is outside.
The text given first only bounds the recursion: every step passes at least one character. -/
def segmentsFrom (take : Cursor → Bool → Option Match) :
    List Char → Cursor → Bool → List Segment
  | [], here, afterMatch => ((take here afterMatch).map Segment.found).toList
  | _ :: left, here, afterMatch =>
    match take here afterMatch, here.rest with
    | none, [] => []
    | none, c :: rest => .plain c :: segmentsFrom take left (here.next c rest) false
    | some m, [] => [.found m]
    | some m, c :: rest =>
      if m.isEmpty then
        .found m :: .plain c :: segmentsFrom take left (here.next c rest) false
      else .found m :: segmentsFrom take left m.stop true

end ImportSuffix
