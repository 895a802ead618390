import ImportSuffix.Text.Interval

/-!
# White space

The characters with the Unicode property `White_Space`: twenty-five code points in ten intervals.
The zero-width space, the byte order mark and the ASCII separators 1C to 1F are not among them.
-/

namespace ImportSuffix.Text

/-- The code points with the property `White_Space`. -/
def blanks : Intervals :=
    [(0x9, 0xD), (0x20, 0x20), (0x85, 0x85), (0xA0, 0xA0), (0x1680, 0x1680), (0x2000, 0x200A),
     (0x2028, 0x2029), (0x202F, 0x202F), (0x205F, 0x205F), (0x3000, 0x3000)]

/-- Whether a character is white space. -/
def isBlank (c : Char) : Bool :=
  blanks.contains c.toNat

/-- A text of white space only; the empty text is one. -/
def isBlankText (text : String) : Bool :=
  text.toList.all isBlank

theorem blanks_ascending : blanks.Ascending :=
  Intervals.ascending_of_ascends (by decide +kernel)

end ImportSuffix.Text
