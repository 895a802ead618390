import ImportSuffix.Pattern.Marks
import ImportSuffix.Text.Blank
import ImportSuffix.Text.Digit
import ImportSuffix.Text.Word

/-!
# Patterns

A pattern describes texts the way a regular expression does, with an order of preference among the
ways to match: of two alternatives the left one is tried first, a greedy repetition tries to go on
before it stops, and a lazy one tries to stop before it goes on.

Three repetitions are primitive, `optional`, `plus` and `many`; the others are built from them.
`many` decides before every round whether to go on, which is only right for a pattern that matches
no empty text. The star of any other pattern is an optional `plus` (`Pattern.star`): which of the
two it is settles what is preferred when a round is empty (see `ImportSuffix.Pattern.Match`).
-/

namespace ImportSuffix

/-- One member of a character class. -/
inductive ClassItem
  /-- The characters from `first` to `last`, both included. -/
  | range (first last : Char)
  /-- The white space, or with `holds = false` everything else. -/
  | blank (holds : Bool)
  /-- The decimal digits, or with `holds = false` everything else. -/
  | digit (holds : Bool)
  /-- The word characters, or with `holds = false` everything else. -/
  | word (holds : Bool)
  deriving Repr, DecidableEq

/-- Whether a character is meant by an item. -/
def ClassItem.contains : ClassItem → Char → Bool
  | .range first last, c => first.toNat ≤ c.toNat && c.toNat ≤ last.toNat
  | .blank holds, c => Text.isBlank c == holds
  | .digit holds, c => Text.isDigit c == holds
  | .word holds, c => Text.isWord c == holds

/-- A character class: the characters of its items, or if `negated` all others. -/
structure CharClass where
  negated : Bool
  items : List ClassItem
  deriving Repr, DecidableEq

namespace CharClass

/-- Whether a character is in the class. -/
def contains (s : CharClass) (c : Char) : Bool :=
  s.items.any (·.contains c) != s.negated

/-- The class of one character. -/
def only (c : Char) : CharClass := ⟨false, [.range c c]⟩

/-- White space. -/
def blank : CharClass := ⟨false, [.blank true]⟩

/-- The two quote characters. -/
def quote : CharClass := ⟨false, [.range '\'' '\'', .range '"' '"']⟩

/-- Everything but the two quote characters. -/
def unquoted : CharClass := ⟨true, [.range '\'' '\'', .range '"' '"']⟩

/-- Everything but a line feed. -/
def inLine : CharClass := ⟨true, [.range '\n' '\n']⟩

@[simp] theorem contains_only (c d : Char) : (only c).contains d = (d == c) := by
  simp only [only, contains, List.any_cons, List.any_nil, Bool.or_false, ClassItem.contains,
    Bool.bne_false]
  rw [Bool.eq_iff_iff, beq_iff_eq, Bool.and_eq_true, decide_eq_true_eq, decide_eq_true_eq]
  constructor
  · intro h; exact Char.toNat_inj.1 (Nat.le_antisymm h.2 h.1)
  · rintro rfl; exact ⟨Nat.le_refl _, Nat.le_refl _⟩

@[simp] theorem contains_blank (c : Char) : blank.contains c = Text.isBlank c := by
  simp [blank, contains, ClassItem.contains]

end CharClass

/-- A place in a text, told from the characters on its two sides. -/
inductive Anchor
  /-- The very beginning. -/
  | textStart
  /-- The very end. -/
  | textEnd
  /-- Between a word character and something else, or with `holds = false` anywhere else. -/
  | wordBoundary (holds : Bool)
  /-- Certain places of one text: given a set of numbers for each place of it, from the start on,
  those places whose set has the number. -/
  | among (marks : Array Marks) (n : Nat)
  deriving Repr, DecidableEq

/-- Which way a repetition leans. -/
inductive Greed
  /-- Go on if possible. -/
  | greedy
  /-- Stop if possible. -/
  | lazy
  deriving Repr, DecidableEq

/-- A pattern. Groups are numbered by the order of their opening, from one. -/
inductive Pattern
  /-- The empty text. -/
  | empty
  /-- One character of a class. -/
  | one (s : CharClass)
  /-- The empty text at certain places. -/
  | anchor (a : Anchor)
  /-- One pattern after another. -/
  | seq (p q : Pattern)
  /-- Either of two patterns, the left one for preference. -/
  | alt (p q : Pattern)
  /-- A pattern or the empty text. -/
  | optional (g : Greed) (p : Pattern)
  /-- A pattern once or more. -/
  | plus (g : Greed) (p : Pattern)
  /-- A pattern any number of times, for patterns that do not match the empty text. -/
  | many (g : Greed) (p : Pattern)
  /-- A pattern whose text is remembered under a number and perhaps a name. -/
  | group (index : Nat) (name : Option String) (p : Pattern)
  deriving Repr, DecidableEq

namespace Pattern

/-- Whether a pattern may match the empty text, judged by its form alone. -/
def mayBeEmpty : Pattern → Bool
  | empty => true
  | one _ => false
  | anchor _ => true
  | seq p q => p.mayBeEmpty && q.mayBeEmpty
  | alt p q => p.mayBeEmpty || q.mayBeEmpty
  | optional _ _ => true
  | plus _ p => p.mayBeEmpty
  | many _ _ => true
  | group _ _ p => p.mayBeEmpty

/-- How many branch points a pattern has: places in it where a run chooses how to go on. -/
def branches : Pattern → Nat
  | empty => 0
  | one _ => 0
  | anchor _ => 0
  | seq p q => p.branches + q.branches
  | alt p q => p.branches + q.branches + 1
  | optional _ p => p.branches + 1
  | plus _ p => p.branches + 1
  | many _ p => p.branches + 1
  | group _ _ p => p.branches

/-- How many classes stand in a pattern: places in it where a run takes a character. -/
def classes : Pattern → Nat
  | empty => 0
  | one _ => 1
  | anchor _ => 0
  | seq p q => p.classes + q.classes
  | alt p q => p.classes + q.classes
  | optional _ p => p.classes
  | plus _ p => p.classes
  | many _ p => p.classes
  | group _ _ p => p.classes

/-- Whether a pattern has at most one way to match the empty text, and so has every part of it. In
particular nothing that it repeats may be empty. -/
def isSteady : Pattern → Bool
  | empty => true
  | one _ => true
  | anchor _ => true
  | seq p q => p.isSteady && q.isSteady
  | alt p q => p.isSteady && q.isSteady && !(p.mayBeEmpty && q.mayBeEmpty)
  | optional _ p => p.isSteady && !p.mayBeEmpty
  | plus _ p => p.isSteady && !p.mayBeEmpty
  | many _ p => p.isSteady && !p.mayBeEmpty
  | group _ _ p => p.isSteady

/-- A pattern any number of times. -/
def star (g : Greed) (p : Pattern) : Pattern :=
  if p.mayBeEmpty then optional g (plus g p) else many g p

@[simp] theorem star_one (g : Greed) (s : CharClass) : star g (one s) = many g (one s) := rfl

/-- Several patterns in a row. -/
def sequence : List Pattern → Pattern
  | [] => empty
  | [p] => p
  | p :: rest => seq p (sequence rest)

/-- Several patterns to choose from, earlier ones for preference. -/
def choice : List Pattern → Pattern
  | [] => empty
  | [p] => p
  | p :: rest => alt p (choice rest)

/-- A text, character by character. -/
def literal (text : String) : Pattern :=
  sequence (text.toList.map fun c => one (.only c))

/-- A pattern at most so many times: each further time is optional after the one before it. -/
def upTo (g : Greed) (p : Pattern) : Nat → Pattern
  | 0 => empty
  | 1 => optional g p
  | n + 1 => optional g (seq p (upTo g p n))

/-- A pattern at least `low` times and at most `high` times, or without a limit. -/
def times (g : Greed) (p : Pattern) (low : Nat) : Option Nat → Pattern
  | some high => sequence (List.replicate low p ++
      if low < high then [upTo g p (high - low)] else [])
  | none => if low = 0 then star g p
      else sequence (List.replicate (low - 1) p ++ [plus g p])

/-- A word boundary. -/
def boundary : Pattern := anchor (.wordBoundary true)

/-- Any amount of white space, as much as possible. -/
def blanks : Pattern := star .greedy (one .blank)

/-- White space, at least one character and as much as possible. -/
def someBlanks : Pattern := plus .greedy (one .blank)

end Pattern

end ImportSuffix
