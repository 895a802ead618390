import ImportSuffix.Pattern.Bracket
import ImportSuffix.Pattern.Phrase

/-!
# The written form of patterns

A pattern is written in the usual notation: literals, `.`, escapes (see
`ImportSuffix.Pattern.Escape`), classes in brackets (see `ImportSuffix.Pattern.Bracket`), groups in
parentheses, `|`, and the repetitions `*`, `+`, `?` and `{n,m}`, each of which a `?` makes lazy.

Reading goes by way of `PatternToken`s. A token is a finished piece of pattern, a repetition of the
piece before it, or one of the marks that give a pattern its structure, so that what is left to do
after cutting the text into tokens is to nest them: one pass with a stack of the groups that are
open. It makes a `Phrase`, whose pattern is the one that is meant.
-/

namespace ImportSuffix

/-- How an opened group is remembered. -/
inductive GroupKind
  /-- Not at all. -/
  | plain
  /-- By its number, and perhaps by a name. -/
  | remembered (name : Option String)

/-- A token of the notation. -/
inductive PatternToken
  /-- A phrase that stands for itself. -/
  | piece (p : Phrase)
  /-- A repetition of the piece before it. -/
  | repeated (repetition : Phrase → Phrase)
  /-- The opening of a group. -/
  | opening (kind : GroupKind)
  /-- The closing of a group. -/
  | closing
  /-- The mark between two alternatives. -/
  | bar

namespace PatternToken

/-! ### Repetitions and groups -/

/-- The number at the beginning of a text, which may have white space on both sides. -/
def readNumber (text : List Char) : Option (Nat × List Char) :=
  let text := text.dropWhile Text.isBlank
  match text.takeWhile Char.isDigit with
  | [] => none
  | digits =>
    some (digits.foldl (fun n d => n * 10 + (d.toNat - 48)) 0,
      (text.dropWhile Char.isDigit).dropWhile Text.isBlank)

/-- The bounds of a repetition in braces, after the opening one. -/
def readBounds (text : List Char) : Option (Nat × Option Nat × List Char) :=
  match readNumber text with
  | some (low, '}' :: rest) => some (low, some low, rest)
  | some (low, ',' :: '}' :: rest) => some (low, none, rest)
  | some (low, ',' :: rest) =>
    match readNumber rest with
    | some (high, '}' :: rest) => if low ≤ high then some (low, some high, rest) else none
    | _ => none
  | _ => none

/-- A repetition between bounds, with the mark that makes it lazy if it follows. -/
def repetition (low : Nat) (high : Option Nat) : List Char → PatternToken × List Char
  | '?' :: rest => (.repeated (.times .lazy low high), rest)
  | rest => (.repeated (.times .greedy low high), rest)

/-- The name of a group up to the closing angle bracket. -/
def readName (text : List Char) : Option (GroupKind × List Char) :=
  match text.dropWhile (· != '>') with
  | _ :: rest => some (.remembered (some (String.ofList (text.takeWhile (· != '>')))), rest)
  | [] => none

/-- What an opening parenthesis begins. -/
def readOpening : List Char → Option (GroupKind × List Char)
  | '?' :: ':' :: rest => some (.plain, rest)
  | '?' :: 'P' :: '<' :: rest => readName rest
  | '?' :: '<' :: rest => readName rest
  | '?' :: _ => none
  | rest => some (.remembered none, rest)

/-! ### Cutting a text into tokens -/

/-- The token at the beginning of a text that begins with `c`, and the text after it. -/
def read (c : Char) (rest : List Char) : Option (PatternToken × List Char) :=
  match c with
  | '\\' =>
    match rest with
    | [] => none
    | d :: rest =>
      match Escape.anchor? d, Escape.item? d with
      | some a, _ => some (.piece (.anchor a), rest)
      | none, some item => some (.piece (.ofClass ⟨false, [item]⟩), rest)
      | none, none => (Escape.char? d).map fun e => (.piece (.chars [e]), rest)
  | '[' => (CharClass.read rest).map fun (s, rest) => (.piece (.ofClass s), rest)
  | '(' => (readOpening rest).map fun (kind, rest) => (.opening kind, rest)
  | ')' => some (.closing, rest)
  | '|' => some (.bar, rest)
  | '.' => some (.piece (.ofClass .inLine), rest)
  | '^' => some (.piece (.anchor .textStart), rest)
  | '$' => some (.piece (.anchor .textEnd), rest)
  | '*' => some (repetition 0 none rest)
  | '+' => some (repetition 1 none rest)
  | '?' => some (repetition 0 (some 1) rest)
  | '{' => (readBounds rest).map fun (low, high, rest) => repetition low high rest
  | c => some (.piece (.chars [c]), rest)

/-- The tokens of a text. Each takes at least one character, so the length of the text bounds their
number. -/
def readAll : Nat → List Char → Option (List PatternToken)
  | _, [] => some []
  | 0, _ :: _ => none
  | fuel + 1, c :: text => do
    let (token, rest) ← read c text
    let tokens ← readAll fuel rest
    return token :: tokens

end PatternToken

/-! ### Nesting -/

/-- A group that is being read: the alternatives that are finished and the pieces of the current
one, both latest first. -/
structure OpenGroup where
  finished : List Phrase
  pieces : List Phrase

namespace OpenGroup

/-- A group of which nothing has been read. -/
def fresh : OpenGroup := ⟨[], []⟩

/-- The current alternative. -/
def current (g : OpenGroup) : Phrase := .row g.pieces.reverse

/-- The phrase of a group at its end. -/
def phrase (g : OpenGroup) : Phrase := .choice (g.current :: g.finished).reverse

/-- One more piece. -/
def add (g : OpenGroup) (p : Phrase) : OpenGroup := { g with pieces := p :: g.pieces }

end OpenGroup

namespace Phrase

/-- The phrase of a group with its kind applied. -/
def ofGroup (kind : GroupKind) (index : Nat) (p : Phrase) : Phrase :=
  match kind with
  | .plain => p
  | .remembered name => group index name p

/-- The phrase that tokens stand for, read in a group that is open in other open groups. Each of
those is kept with the kind and number of the group that was opened in it; `next` is the number of
the next group. -/
def ofTokens? : List PatternToken → OpenGroup → List (OpenGroup × GroupKind × Nat) → Nat →
    Option Phrase
  | [], g, [], _ => some g.phrase
  | [], _, _ :: _, _ => none
  | .piece p :: rest, g, outer, next => ofTokens? rest (g.add p) outer next
  | .repeated repetition :: rest, g, outer, next =>
    match g.pieces with
    | p :: pieces => ofTokens? rest { g with pieces := repetition p :: pieces } outer next
    | [] => none
  | .bar :: rest, g, outer, next =>
    ofTokens? rest ⟨g.current :: g.finished, []⟩ outer next
  | .opening .plain :: rest, g, outer, next =>
    ofTokens? rest .fresh ((g, .plain, next) :: outer) next
  | .opening kind :: rest, g, outer, next =>
    ofTokens? rest .fresh ((g, kind, next) :: outer) (next + 1)
  | .closing :: rest, g, (around, kind, index) :: outer, next =>
    ofTokens? rest (around.add (ofGroup kind index g.phrase)) outer next
  | .closing :: _, _, [], _ => none

end Phrase

/-- The pattern that a text is the written form of, if it is one. -/
def Pattern.read? (text : String) : Option Pattern := do
  let tokens ← PatternToken.readAll text.length text.toList
  let phrase ← Phrase.ofTokens? tokens .fresh [] 1
  return phrase.pattern

end ImportSuffix
