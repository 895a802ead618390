import ImportSuffix.Json.Basic

/-!
# The printed form of JSON values

Every item and every member stands on a line of its own, indented by two spaces for each level;
what is empty is written without a line break. In a text only the quote, the backslash and the
control characters are escaped, five of these by a letter and the others by their number.
-/

namespace ImportSuffix.Json

/-- A hexadecimal digit in lower case. -/
def hexDigit (n : Nat) : Char :=
  if n < 10 then Char.ofNat (48 + n) else Char.ofNat (87 + n)

/-- The written form of one character of a text. -/
def escapeChar (c : Char) : List Char :=
  match c with
  | '"' => ['\\', '"']
  | '\\' => ['\\', '\\']
  | '\x08' => ['\\', 'b']
  | '\x0c' => ['\\', 'f']
  | '\n' => ['\\', 'n']
  | '\r' => ['\\', 'r']
  | '\t' => ['\\', 't']
  | c =>
    if c.toNat < 0x20 then
      ['\\', 'u', '0', '0', hexDigit (c.toNat / 16), hexDigit (c.toNat % 16)]
    else [c]

/-- The written form of a text. -/
def printString (s : String) : List Char :=
  '"' :: s.toList.flatMap escapeChar ++ ['"']

/-- A line break and the indentation of a level. -/
def lineBreak (level : Nat) : List Char :=
  '\n' :: List.replicate (2 * level) ' '

mutual

/-- The printed form of a value that begins at a level of indentation. -/
def printAt (level : Nat) : Json → List Char
  | null => "null".toList
  | bool true => "true".toList
  | bool false => "false".toList
  | num n => (toString n).toList
  | str s => printString s
  | arr [] => ['[', ']']
  | arr (item :: rest) =>
    '[' :: lineBreak (level + 1) ++ printAt (level + 1) item ++ printItems (level + 1) rest ++
      lineBreak level ++ [']']
  | obj [] => ['\x7b', '\x7d']
  | obj ((key, value) :: rest) =>
    '\x7b' :: lineBreak (level + 1) ++ printString key ++ [':', ' '] ++
      printAt (level + 1) value ++ printMembers (level + 1) rest ++ lineBreak level ++ ['\x7d']

/-- The printed form of the items after the first one. -/
def printItems (level : Nat) : List Json → List Char
  | [] => []
  | item :: rest => ',' :: lineBreak level ++ printAt level item ++ printItems level rest

/-- The printed form of the members after the first one. -/
def printMembers (level : Nat) : List (String × Json) → List Char
  | [] => []
  | (key, value) :: rest =>
    ',' :: lineBreak level ++ printString key ++ [':', ' '] ++ printAt level value ++
      printMembers level rest

end

/-- The printed form of a value. -/
def print (j : Json) : String :=
  String.ofList (printAt 0 j)

end ImportSuffix.Json
