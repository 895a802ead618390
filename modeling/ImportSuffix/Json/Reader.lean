import ImportSuffix.Json.Magnitude

/-!
# Reading JSON text

The pieces from which a reader of some particular form of JSON text is made. Each takes the text
that is left and gives what it read together with the text after it, or the first flaw in reading
order. A flaw is one of three kinds: the text is no JSON, it ends too early, or it is JSON up to
here but not of the form that is wanted.

Values that nobody wants are skipped by a machine with a stack of the brackets that are open, so
they may be nested to any depth. Skipping looks at the form of the text only: it accepts escapes
that encode no character and numbers of any size.
-/

namespace ImportSuffix.Json

/-- What can be wrong with a text. -/
inductive Flaw
  /-- The text breaks the grammar. -/
  | malformed
  /-- The text ends where the grammar wants more. -/
  | unfinished
  /-- The text is of another form than wanted. -/
  | mismatch
  deriving Repr, DecidableEq

/-- Whether a character may stand between the tokens. -/
def isGap (c : Char) : Bool :=
  c == ' ' || c == '\n' || c == '\t' || c == '\r'

/-- The text after the white space at its beginning. -/
def skipGap (text : List Char) : List Char := text.dropWhile isGap

/-- The flaw of a text that does not go on as it has to: it is unfinished if nothing is left. -/
def flawAt : List Char → Flaw
  | [] => .unfinished
  | _ :: _ => .malformed

/-- The text after a character that has to come next, white space before it aside. -/
def expect (c : Char) (text : List Char) : Except Flaw (List Char) :=
  match skipGap text with
  | d :: rest => if d = c then .ok rest else .error .malformed
  | [] => .error .unfinished

/-- The text after a word that has to come next. -/
def expectWord : List Char → List Char → Except Flaw (List Char)
  | [], text => .ok text
  | _ :: _, [] => .error .unfinished
  | c :: word, d :: text => if d = c then expectWord word text else .error .malformed

/-! ### Texts in quotes -/

/-- The value of a hexadecimal digit. -/
def hexValue? (c : Char) : Option Nat :=
  if '0' ≤ c ∧ c ≤ '9' then some (c.toNat - 48)
  else if 'a' ≤ c ∧ c ≤ 'f' then some (c.toNat - 87)
  else if 'A' ≤ c ∧ c ≤ 'F' then some (c.toNat - 55)
  else none

/-- The flaw of a text that does not begin with four hexadecimal digits: it is unfinished if it has
fewer than four bytes. -/
def hexFlaw (text : List Char) : Flaw :=
  if (text.take 4).foldl (fun bytes c => bytes + c.utf8Size) 0 < 4 then .unfinished else .malformed

/-- A number in four hexadecimal digits. -/
def readHex (text : List Char) : Except Flaw (Nat × List Char) :=
  match text with
  | a :: b :: c :: d :: rest =>
    match hexValue? a, hexValue? b, hexValue? c, hexValue? d with
    | some a, some b, some c, some d => .ok (((a * 16 + b) * 16 + c) * 16 + d, rest)
    | _, _, _, _ => .error .malformed
  | _ => .error (hexFlaw text)

/-- The character that a letter after a backslash stands for, numbers aside. -/
def escapedChar? : Char → Option Char
  | '"' => some '"'
  | '\\' => some '\\'
  | '/' => some '/'
  | 'b' => some '\x08'
  | 'f' => some '\x0c'
  | 'n' => some '\n'
  | 'r' => some '\r'
  | 't' => some '\t'
  | _ => none

/-- Whether a UTF-16 unit begins a pair. -/
def isHighSurrogate (n : Nat) : Bool := 0xD800 ≤ n && n ≤ 0xDBFF

/-- Whether a UTF-16 unit ends a pair. -/
def isLowSurrogate (n : Nat) : Bool := 0xDC00 ≤ n && n ≤ 0xDFFF

/-- The unit that has to end a pair, written as an escape. -/
def readLowSurrogate : List Char → Except Flaw (Nat × List Char)
  | '\\' :: 'u' :: rest => do
    let (n, rest) ← readHex rest
    if isLowSurrogate n then .ok (n, rest) else .error .malformed
  | ['\\'] => .error .unfinished
  | [] => .error .unfinished
  | _ => .error .malformed

/-- The character of an escape, after the backslash. Characters past the first plane are written as
a pair of units. -/
def readEscape : List Char → Except Flaw (Char × List Char)
  | [] => .error .unfinished
  | 'u' :: rest => do
    let (high, rest) ← readHex rest
    if isLowSurrogate high then .error .malformed
    else if isHighSurrogate high then
      let (low, rest) ← readLowSurrogate rest
      .ok (Char.ofNat (0x10000 + (high - 0xD800) * 0x400 + (low - 0xDC00)), rest)
    else .ok (Char.ofNat high, rest)
  | c :: rest =>
    match escapedChar? c with
    | some d => .ok (d, rest)
    | none => .error .malformed

/-- The characters of a text up to its closing quote. The number only bounds the recursion: every
step takes at least one character. -/
def readChars : Nat → List Char → Except Flaw (List Char × List Char)
  | _, [] => .error .unfinished
  | 0, _ :: _ => .error .unfinished
  | fuel + 1, c :: rest =>
    if c = '"' then .ok ([], rest)
    else if c = '\\' then do
      let (d, rest) ← readEscape rest
      let (text, rest) ← readChars fuel rest
      .ok (d :: text, rest)
    else if c.toNat < 0x20 then .error .malformed
    else do
      let (text, rest) ← readChars fuel rest
      .ok (c :: text, rest)

/-- A text, after its opening quote. -/
def readText (text : List Char) : Except Flaw (String × List Char) := do
  let (chars, rest) ← readChars text.length text
  .ok (String.ofList chars, rest)

/-! ### Skipping -/

/-- The text after an escape, given the text after the backslash. -/
def skipEscape : List Char → Except Flaw (List Char)
  | [] => .error .unfinished
  | 'u' :: rest => (readHex rest).map Prod.snd
  | c :: rest => if (escapedChar? c).isSome then .ok rest else .error .malformed

/-- The text after the closing quote of a text. -/
def skipChars : Nat → List Char → Except Flaw (List Char)
  | _, [] => .error .unfinished
  | 0, _ :: _ => .error .unfinished
  | fuel + 1, c :: rest =>
    if c = '"' then .ok rest
    else if c = '\\' then do skipChars fuel (← skipEscape rest)
    else if c.toNat < 0x20 then .error .malformed
    else skipChars fuel rest

/-- The text after the closing quote of a text, given the text after the opening one. -/
def skipText (text : List Char) : Except Flaw (List Char) :=
  skipChars text.length text

/-- The text after a nonempty run of digits. -/
def skipDigits : List Char → Except Flaw (List Char)
  | [] => .error .malformed
  | c :: rest => if c.isDigit then .ok (rest.dropWhile Char.isDigit) else .error .malformed

/-- The text after an exponent, if there is one. -/
def skipExponent : List Char → Except Flaw (List Char)
  | [] => .ok []
  | c :: rest =>
    if c = 'e' || c = 'E' then
      match rest with
      | '+' :: digits => skipDigits digits
      | '-' :: digits => skipDigits digits
      | digits => skipDigits digits
    else .ok (c :: rest)

/-- The text after what may follow the digits before the point. -/
def skipFraction : List Char → Except Flaw (List Char)
  | '.' :: rest => do skipExponent (← skipDigits rest)
  | rest => skipExponent rest

/-- The text after a number without a sign. There are no zeros in front of other digits. -/
def skipUnsigned : List Char → Except Flaw (List Char)
  | [] => .error .malformed
  | '0' :: rest =>
    match rest with
    | c :: _ => if c.isDigit then .error .malformed else skipFraction rest
    | [] => .ok []
  | c :: rest =>
    if c.isDigit then skipFraction (rest.dropWhile Char.isDigit) else .error .malformed

/-- An opened bracket. -/
inductive Bracket
  | array
  | object
  deriving Repr, DecidableEq

/-- The character that closes a bracket. -/
def Bracket.close : Bracket → Char
  | array => ']'
  | object => '\x7d'

/-- What the skipping of a value waits for. -/
inductive Awaited
  /-- A value. -/
  | value
  /-- What stands directly after an opened bracket: its end, or the first entry. -/
  | first
  /-- What stands after an entry: the end of the bracket, or a comma and another entry. -/
  | next
  deriving Repr, DecidableEq

/-- What stands at the beginning of a value: a bracket that it opens, or a whole value that has
been skipped, and the text after it. -/
def skipScalar : List Char → Except Flaw (Option Bracket × List Char)
  | [] => .error .unfinished
  | '[' :: rest => .ok (some .array, rest)
  | '\x7b' :: rest => .ok (some .object, rest)
  | '"' :: rest => (skipText rest).map (none, ·)
  | 'n' :: rest => (expectWord ['u', 'l', 'l'] rest).map (none, ·)
  | 't' :: rest => (expectWord ['r', 'u', 'e'] rest).map (none, ·)
  | 'f' :: rest => (expectWord ['a', 'l', 's', 'e'] rest).map (none, ·)
  | '-' :: rest => (skipUnsigned rest).map (none, ·)
  | c :: rest =>
    if c.isDigit then (skipUnsigned (c :: rest)).map (none, ·) else .error .malformed

/-- The text of an entry at the place of its value: in an object a key and a colon come first. -/
def skipKey : Bracket → List Char → Except Flaw (List Char)
  | .array, text => .ok text
  | .object, text => do expect ':' (← skipText (← expect '"' text))

/-- The text after a value in open brackets, innermost first; it ends where the outermost closes.
The number only bounds the recursion: every step takes at least one character or goes on to await a
value. -/
def skipIn : Nat → Awaited → List Bracket → List Char → Except Flaw (List Char)
  | 0, _, _, _ => .error .unfinished
  | fuel + 1, .value, open_, text => do
    match ← skipScalar (skipGap text) with
    | (some bracket, rest) => skipIn fuel .first (bracket :: open_) rest
    | (none, rest) => skipIn fuel .next open_ rest
  | _ + 1, .first, [], text => .ok text
  | fuel + 1, .first, bracket :: open_, text =>
    match skipGap text with
    | [] => .error .unfinished
    | c :: rest =>
      if c = bracket.close then skipIn fuel .next open_ rest
      else do skipIn fuel .value (bracket :: open_) (← skipKey bracket (c :: rest))
  | _ + 1, .next, [], text => .ok text
  | fuel + 1, .next, bracket :: open_, text =>
    match skipGap text with
    | [] => .error .unfinished
    | c :: rest =>
      if c = bracket.close then skipIn fuel .next open_ rest
      else if c = ',' then do skipIn fuel .value (bracket :: open_) (← skipKey bracket rest)
      else .error .malformed

/-- The text after a value. -/
def skipValue (text : List Char) : Except Flaw (List Char) :=
  skipIn (2 * text.length + 2) .value [] text

/-! ### Values of the wrong form -/

/-- Reads on after the digits before the point of a number that is checked for its range, and says
whether the number is in order. -/
def checkExponent (whole fraction : List Char) : List Char → Except Flaw Unit
  | [] => check 0
  | c :: rest =>
    if c = 'e' || c = 'E' then
      match rest with
      | '+' :: digits => signed 1 digits
      | '-' :: digits => signed (-1) digits
      | digits => signed 1 digits
    else check 0
where
  /-- The check of the range, once the exponent is known. -/
  check (exponent : Int) : Except Flaw Unit :=
    if exceedsRange whole fraction exponent then .error .malformed else .ok ()
  /-- The check of the range after the sign of the exponent. -/
  signed (sign : Int) (digits : List Char) : Except Flaw Unit :=
    match digits.takeWhile Char.isDigit with
    | [] => .error (flawAt digits)
    | exponent => check (sign * (exponent.foldl (fun n d => n * 10 + digitValue d) 0 : Nat))

/-- Checks what follows the digits before the point. -/
def checkFraction (whole : List Char) : List Char → Except Flaw Unit
  | '.' :: rest =>
    match rest.takeWhile Char.isDigit with
    | [] => .error (flawAt rest)
    | fraction => checkExponent whole fraction (rest.dropWhile Char.isDigit)
  | rest => checkExponent whole [] rest

/-- Checks a number without a sign: its form and its range. -/
def checkUnsigned : List Char → Except Flaw Unit
  | [] => .error .unfinished
  | '0' :: rest =>
    match rest with
    | c :: _ => if c.isDigit then .error .malformed else checkFraction ['0'] rest
    | [] => .ok ()
  | c :: rest =>
    if c.isDigit then
      checkFraction (c :: rest.takeWhile Char.isDigit) (rest.dropWhile Char.isDigit)
    else .error .malformed

/-- Checks a value as far as it has to be read to know its type. -/
def checkValue : List Char → Except Flaw Unit
  | [] => .error .unfinished
  | '[' :: _ => .ok ()
  | '\x7b' :: _ => .ok ()
  | '"' :: rest => (readText rest).map fun _ => ()
  | 'n' :: rest => (expectWord ['u', 'l', 'l'] rest).map fun _ => ()
  | 't' :: rest => (expectWord ['r', 'u', 'e'] rest).map fun _ => ()
  | 'f' :: rest => (expectWord ['a', 'l', 's', 'e'] rest).map fun _ => ()
  | '-' :: rest => checkUnsigned rest
  | c :: rest => if c.isDigit then checkUnsigned (c :: rest) else .error .malformed

/-- The flaw of a text that begins with a value of another type than wanted: a flaw of that value,
if it has one, comes first. -/
def mismatchAt (text : List Char) : Flaw :=
  match checkValue text with
  | .error flaw => flaw
  | .ok () => .mismatch

/-- A text that is wanted. -/
def readWantedText (text : List Char) : Except Flaw (String × List Char) :=
  match skipGap text with
  | '"' :: rest => readText rest
  | other => .error (mismatchAt other)

end ImportSuffix.Json
