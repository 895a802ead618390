/-!
# Bytes and characters

File names and paths are byte strings, which need not be valid UTF-8. `decodeLossy` renders any of
them: each character that is encoded properly stands for itself, and each longest run of bytes that
begins a character without completing it, like each byte that cannot begin one, becomes one
replacement character. The decoder is a machine that reads one byte at a time and owes at most
three continuation bytes, so it is a plain recursion on the bytes.
-/

namespace ImportSuffix.Text

/-- A byte string. -/
abbrev Bytes := List UInt8

/-- The UTF-8 encoding of a text. -/
def encode (text : List Char) : Bytes :=
  text.flatMap String.utf8EncodeChar

@[simp] theorem encode_nil : encode [] = [] := rfl

@[simp] theorem encode_cons (c : Char) (text : List Char) :
    encode (c :: text) = String.utf8EncodeChar c ++ encode text := rfl

@[simp] theorem encode_append (a b : List Char) : encode (a ++ b) = encode a ++ encode b := by
  simp [encode]

/-- The bytes of a string. -/
def bytesOf (s : String) : Bytes :=
  encode s.toList

/-- The character that stands for bytes that encode none. -/
def replacement : Char := '\uFFFD'

/-- A character of which some bytes have been read: the value so far, how many continuation bytes
are owed, and the bounds of the next one. -/
structure Pending where
  value : Nat
  owed : Nat
  low : UInt8
  high : UInt8

/-- What the first byte of a character says: the character itself, a longer character to complete,
or nothing valid. The bounds on the second byte exclude overlong forms, surrogates and values past
the last code point. -/
def begin (b : UInt8) : List Char × Option Pending :=
  if b < 0x80 then ([Char.ofNat b.toNat], none)
  else if b < 0xC2 then ([replacement], none)
  else if b < 0xE0 then ([], some ⟨b.toNat - 0xC0, 1, 0x80, 0xBF⟩)
  else if b = 0xE0 then ([], some ⟨0, 2, 0xA0, 0xBF⟩)
  else if b = 0xED then ([], some ⟨0xD, 2, 0x80, 0x9F⟩)
  else if b < 0xF0 then ([], some ⟨b.toNat - 0xE0, 2, 0x80, 0xBF⟩)
  else if b = 0xF0 then ([], some ⟨0, 3, 0x90, 0xBF⟩)
  else if b < 0xF4 then ([], some ⟨b.toNat - 0xF0, 3, 0x80, 0xBF⟩)
  else if b = 0xF4 then ([], some ⟨4, 3, 0x80, 0x8F⟩)
  else ([replacement], none)

/-- One byte read while a character may be pending: the characters settled by it and what is
pending after it. -/
def advance : Option Pending → UInt8 → List Char × Option Pending
  | none, b => begin b
  | some p, b =>
    if p.low ≤ b && b ≤ p.high then
      let value := p.value * 64 + (b.toNat - 0x80)
      if p.owed = 1 then ([Char.ofNat value], none)
      else ([], some ⟨value, p.owed - 1, 0x80, 0xBF⟩)
    else (replacement :: (begin b).1, (begin b).2)

/-- The characters of a byte string, read while a character may be pending. -/
def decodeFrom : Option Pending → Bytes → List Char
  | none, [] => []
  | some _, [] => [replacement]
  | p, b :: rest => (advance p b).1 ++ decodeFrom (advance p b).2 rest

/-- The rendering of a byte string as text. -/
def decodeLossy (bytes : Bytes) : List Char :=
  decodeFrom none bytes

@[simp] theorem decodeLossy_nil : decodeLossy [] = [] := rfl

/-- The rendering of a byte string, as a string. -/
def display (bytes : Bytes) : String :=
  String.ofList (decodeLossy bytes)

/-- A byte string as the string it encodes, if it encodes one. -/
def decode? (bytes : Bytes) : Option String :=
  String.fromUTF8? ⟨bytes.toArray⟩

end ImportSuffix.Text
