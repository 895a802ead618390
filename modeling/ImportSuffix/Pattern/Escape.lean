import ImportSuffix.Pattern.Basic

/-!
# Escapes

A backslash in the written form of a pattern gives the character after it another meaning: a class
(`\d`), a place in the text (`\b`), a control character (`\n`), or, for everything in ASCII that is
neither a letter nor a digit, the character itself. No character has two of these meanings.
-/

namespace ImportSuffix.Escape

/-- The class that a letter after a backslash stands for. -/
def item? : Char → Option ClassItem
  | 's' => some (.blank true)
  | 'S' => some (.blank false)
  | 'd' => some (.digit true)
  | 'D' => some (.digit false)
  | 'w' => some (.word true)
  | 'W' => some (.word false)
  | _ => none

/-- The place that a letter after a backslash stands for. -/
def anchor? : Char → Option Anchor
  | 'b' => some (.wordBoundary true)
  | 'B' => some (.wordBoundary false)
  | 'A' => some .textStart
  | 'z' => some .textEnd
  | _ => none

/-- The character that a character after a backslash stands for. The angle brackets are left out:
with a backslash they mean the ends of a word. -/
def char? : Char → Option Char
  | 'n' => some '\n'
  | 'r' => some '\r'
  | 't' => some '\t'
  | 'f' => some '\x0c'
  | 'v' => some '\x0b'
  | 'a' => some '\x07'
  | '<' => none
  | '>' => none
  | c => if c.toNat < 128 && !c.isAlphanum then some c else none

end ImportSuffix.Escape
