import ImportSuffix.Text.Utf8

/-!
# File name patterns

A glob is matched against the bytes of a name: `*` and `**` stand for any bytes, `?` for one,
`[…]` for one of a class, `{…,…}` for one of several alternatives; a backslash takes the meaning
from the character after it, and each exclamation mark in front turns the verdict round.

Matching is a machine with two positions, one in the glob and one in the name. A star remembers
where it stood, and a mismatch goes back to the latest star with one more byte of the name given to
it. At an opening brace the whole state is put on a stack, and the alternatives are tried from the
same position of the name; the longest one that matches is taken. A glob that turns out to be
ill-formed, with a bracket or brace that never closes or a backslash at its end, matches nothing,
but only if the machine gets to the place where it is.

The machine comes back to a pair of positions at most once for each star and each level of braces,
and there are at most ten levels; `Glob.stepBound` is above the number of steps that this allows.
-/

namespace ImportSuffix.Glob

open Text (Bytes)

/-- The code of an ASCII character. -/
def code (c : Char) : UInt8 := UInt8.ofNat c.toNat

/-- Whether a byte separates the components of a path. -/
def isSeparator (b : UInt8) : Bool := b == code '/'

/-- Whether a text has a character at a position. -/
def hasAt (text : Array UInt8) (i : Nat) (c : Char) : Bool := text[i]? == some (code c)

/-- Whether the byte at a position of a name is a separator. -/
def separatorAt (name : Array UInt8) (i : Nat) : Bool :=
  match name[i]? with
  | some b => isSeparator b
  | none => false

/-- A star that can be given more of the name: its position in the glob and the position in the
name where matching goes on after that. The position zero in the name means that there is none. -/
structure Star where
  glob : Nat
  name : Nat
  deriving Repr, DecidableEq

/-- No star. -/
def Star.none : Star := ⟨0, 0⟩

/-- The state of the machine within one level of braces: its positions in the glob and the name, the
latest star, and the latest star that may also pass separators. -/
structure State where
  glob : Nat
  name : Nat
  star : Star
  deepStar : Star
  deriving Repr, DecidableEq

/-- The machine: the state in the innermost braces, the states at the opening of all braces around
it, and the end of the longest alternative so far. -/
structure Machine where
  state : State
  outer : List State
  longest : Nat
  deriving Repr, DecidableEq

/-- What a step leads to: another step or a verdict. -/
inductive Outcome
  | step (m : Machine)
  | verdict (isMatch : Bool)
  deriving Repr, DecidableEq

/-- How deep braces can be nested. -/
def maxDepth : Nat := 10

/-- The byte that a byte stands for after a backslash. -/
def escaped (b : UInt8) : UInt8 :=
  if b = code 'b' then 0x08
  else if b = code 'n' then code '\n'
  else if b = code 'r' then code '\r'
  else if b = code 't' then code '\t'
  else b

/-- The literal byte at a position of the glob, which may be written with a backslash, and the
position of its last byte. There is none if the glob ends after the backslash. -/
def literalAt (glob : Array UInt8) (i : Nat) : Option (UInt8 × Nat) :=
  match glob[i]? with
  | none => none
  | some b =>
    if b = code '\\' then (glob[i + 1]?).map fun c => (escaped c, i + 1)
    else some (b, i)

/-- The position after all copies of `/**` that stand at a position. -/
def skipDeepStars (glob : Array UInt8) : Nat → Nat → Nat
  | 0, i => i
  | fuel + 1, i =>
    if hasAt glob i '/' && hasAt glob (i + 1) '*' && hasAt glob (i + 2) '*' then
      skipDeepStars glob fuel (i + 3)
    else i

/-! ### Classes -/

/-- Reads the entries of a class from a position and says whether the byte is in one of them, and
where the class ends. A bracket that comes first is an entry. There is no end if the glob is
ill-formed. -/
def readClass (glob : Array UInt8) (b : UInt8) : Nat → Bool → Bool → Nat → Option (Bool × Nat)
  | 0, _, _, _ => none
  | fuel + 1, isFirst, found, i =>
    match glob[i]? with
    | none => none
    | some c =>
      if c = code ']' && !isFirst then some (found, i)
      else match literalAt glob i with
        | none => none
        | some (low, i) =>
          if hasAt glob (i + 1) '-' && i + 2 < glob.size && !hasAt glob (i + 2) ']' then
            match literalAt glob (i + 2) with
            | none => none
            | some (high, i) =>
              readClass glob b fuel false (found || (low ≤ b && b ≤ high)) (i + 1)
          else readClass glob b fuel false (found || low == b) (i + 1)

/-! ### Braces -/

/-- Where the skipping of alternatives ended. -/
inductive Skipped
  /-- Nowhere: the brace does not close. -/
  | unclosed
  /-- After a comma, at the next alternative. -/
  | comma (next : Nat)
  /-- After the closing brace. -/
  | closed (next : Nat)
  deriving Repr, DecidableEq

/-- Skips the glob from a position to the next alternative of the innermost braces, or if
`toEnd` is set to their end. `depth` counts the braces that are open. -/
def skipAlternative (glob : Array UInt8) (toEnd : Bool) : Nat → Nat → Bool → Nat → Skipped
  | 0, _, _, _ => .unclosed
  | fuel + 1, depth, inClass, i =>
    if depth = 0 then .closed i
    else match glob[i]? with
      | none => .unclosed
      | some c =>
        if c = code '\x7b' && !inClass then
          skipAlternative glob toEnd fuel (depth + 1) inClass (i + 1)
        else if c = code '\x7d' && !inClass then
          skipAlternative glob toEnd fuel (depth - 1) inClass (i + 1)
        else if c = code ',' && !toEnd && depth == 1 && !inClass then .comma (i + 1)
        else if c = code '*' && !inClass then
          if hasAt glob (i + 1) '*' then
            skipAlternative glob toEnd fuel depth inClass (skipDeepStars glob glob.size (i + 2))
          else skipAlternative glob toEnd fuel depth inClass (i + 1)
        else if c = code '[' && !inClass then skipAlternative glob toEnd fuel depth true (i + 1)
        else if c = code ']' then skipAlternative glob toEnd fuel depth false (i + 1)
        else if c = code '\\' then skipAlternative glob toEnd fuel depth inClass (i + 2)
        else skipAlternative glob toEnd fuel depth inClass (i + 1)

/-- Skips from a position to the next alternative or the end of the innermost braces. -/
def skip (glob : Array UInt8) (toEnd : Bool) (i : Nat) : Skipped :=
  skipAlternative glob toEnd (glob.size + 2) 1 false i

/-- Leaves the innermost braces: matching goes on at the end of the longest alternative, with the
stars that were there before the braces. -/
def Machine.leave (m : Machine) (s : State) : Machine :=
  match m.outer with
  | [] => { m with state := s }
  | top :: rest =>
    { state := ⟨s.glob, m.longest, top.star, top.deepStar⟩
      outer := rest
      longest := if rest.isEmpty then 0 else m.longest }

/-! ### Steps -/

/-- Whether a star can be given more of the name. -/
def Star.isUsable (star : Star) (name : Array UInt8) : Bool :=
  0 < star.name && star.name ≤ name.size

/-- The state that goes back to its latest star. -/
def State.retry (s : State) : State :=
  { s with glob := s.star.glob, name := s.star.name }

/-- What happens when the glob does not match at the current positions. -/
def mismatch (glob name : Array UInt8) (negated : Bool) (m : Machine) : Outcome :=
  let s := m.state
  if s.star.isUsable name then .step { m with state := s.retry }
  else match m.outer with
    | [] => .verdict negated
    | top :: rest =>
      match skip glob false s.glob with
      | .unclosed => .verdict false
      | .comma next => .step { m with state := { s with glob := next, name := top.name } }
      | .closed next =>
        if 0 < m.longest then .step (m.leave { s with glob := next })
        else if top.star.isUsable name then
          .step { m with state := top.retry, outer := rest }
        else .verdict negated

/-- The state after a star has been read: it remembers the star, at first with nothing of the name
given to it. Two stars between separators may also stand for nothing together with one of them. -/
def State.readStar (glob name : Array UInt8) (s : State) : State :=
  let isDeep := hasAt glob (s.glob + 1) '*'
  let start := if isDeep then skipDeepStars glob glob.size (s.glob + 2) - 2 else s.glob
  let star : Star := ⟨start, s.name + 1⟩
  let s := { s with star := star }
  let s :=
    if isDeep then
      let next := start + 2
      if next = glob.size then { s with glob := next, deepStar := star }
      else if (next < 3 || hasAt glob (next - 3) '/') && hasAt glob next '/' then
        let skipsSeparator :=
          s.name == 0 || (s.name < name.size && separatorAt name (s.name - 1))
        { s with glob := if skipsSeparator then next + 1 else next, deepStar := star }
      else { s with glob := next }
    else { s with glob := start + 1 }
  if s.deepStar.name != s.star.name && separatorAt name s.name then
    if 0 < s.deepStar.name && s.name + 1 < name.size then
      { s with glob := s.deepStar.glob, star := { s.star with glob := s.deepStar.glob } }
    else { s with star := { s.star with name := 0 } }
  else s

/-- The step at a star. A star at the end of an alternative ends the braces. -/
def starStep (glob name : Array UInt8) (m : Machine) : Outcome :=
  let s := m.state.readStar glob name
  if !m.outer.isEmpty && (hasAt glob s.glob ',' || hasAt glob s.glob '\x7d') then
    match skip glob true s.glob with
    | .unclosed => .verdict false
    | .comma next => .step { m with state := { s with glob := next } }
    | .closed next => .step { m with state := { s with glob := next } }
  else .step { m with state := s }

/-- The step at a class, with the byte of the name that it has to hold. -/
def classStep (glob name : Array UInt8) (negated : Bool) (m : Machine) (b : UInt8) : Outcome :=
  let s := m.state
  let isNegated := hasAt glob (s.glob + 1) '^' || hasAt glob (s.glob + 1) '!'
  let start := if isNegated then s.glob + 2 else s.glob + 1
  match readClass glob b (glob.size + 1) true false start with
  | none => .verdict false
  | some (found, stop) =>
    let s := { s with glob := stop + 1 }
    if found != isNegated then .step { m with state := { s with name := s.name + 1 } }
    else mismatch glob name negated { m with state := s }

/-- The step at a literal byte of the glob, with the byte of the name that it has to be. -/
def literalStep (glob name : Array UInt8) (negated : Bool) (m : Machine) (b : UInt8) : Outcome :=
  let s := m.state
  match literalAt glob s.glob with
  | none => .verdict false
  | some (c, i) =>
    let s := { s with glob := i }
    if b = c then
      let m :=
        if !m.outer.isEmpty && 0 < s.glob && hasAt glob (s.glob - 1) '\x7d' then
          { m with longest := s.name }.leave s
        else { m with state := s }
      let s := m.state
      let deepStar := if isSeparator c then s.deepStar else { s.deepStar with name := 0 }
      .step { m with
        state := { s with glob := s.glob + 1, name := s.name + 1, deepStar := deepStar } }
    else mismatch glob name negated { m with state := s }

/-- One step of the machine. -/
def step (glob name : Array UInt8) (negated : Bool) (m : Machine) : Outcome :=
  let s := m.state
  match glob[s.glob]?, name[s.name]? with
  | none, none => .verdict (!negated)
  | none, some _ => mismatch glob name negated m
  | some c, b? =>
    if c = code '*' then starStep glob name m
    else if c = code '\x7d' && !m.outer.isEmpty then
      .step ({ m with longest := max m.longest s.name }.leave { s with glob := s.glob + 1 })
    else match m.outer, b? with
      | top :: _, b? =>
        if c = code ',' then
          .step { m with
            longest := max m.longest s.name
            state := ⟨s.glob + 1, top.name, .none, .none⟩ }
        else byteStep c b?
      | [], b? => byteStep c b?
where
  /-- The step at a byte of the glob that has to match a byte of the name. -/
  byteStep (c : UInt8) : Option UInt8 → Outcome
    | none => mismatch glob name negated m
    | some b =>
      let s := m.state
      if c = code '?' then
        if isSeparator b then mismatch glob name negated m
        else .step { m with state := { s with glob := s.glob + 1, name := s.name + 1 } }
      else if c = code '[' then classStep glob name negated m b
      else if c = code '\x7b' then
        if m.outer.length = maxDepth then .verdict false
        else .step { m with
          state := ⟨s.glob + 1, s.name, .none, .none⟩
          outer := s :: m.outer }
      else literalStep glob name negated m b

/-- Steps until there is a verdict. -/
def run (glob name : Array UInt8) (negated : Bool) : Nat → Machine → Bool
  | 0, _ => false
  | fuel + 1, m =>
    match step glob name negated m with
    | .verdict isMatch => isMatch
    | .step m => run glob name negated fuel m

/-- More steps than a match can take. -/
def stepBound (glob name : Array UInt8) : Nat :=
  Nat.pow ((glob.size + 2) * (name.size + 2)) (maxDepth + 2)

/-- Whether a glob matches a name. -/
def isMatch (glob name : Bytes) : Bool :=
  let marks := (glob.takeWhile (· == code '!')).length
  run glob.toArray name.toArray (marks % 2 == 1) (stepBound glob.toArray name.toArray)
    ⟨⟨marks, 0, .none, .none⟩, [], 0⟩

end ImportSuffix.Glob
