import DesignMatrix.Text.Ranges

/-!
# Blank characters

The characters with the property `White_Space` of Unicode, and texts made of them only.
-/

namespace DesignMatrix.Text

/-- The intervals of code points with the property `White_Space`. -/
def blankRanges : Ranges :=
  [(0x9, 0xD), (0x20, 0x20), (0x85, 0x85), (0xA0, 0xA0), (0x1680, 0x1680), (0x2000, 0x200A),
   (0x2028, 0x2029), (0x202F, 0x202F), (0x205F, 0x205F), (0x3000, 0x3000)]

/-- The character has the property `White_Space`. -/
def isBlank (c : Char) : Bool := blankRanges.covers c

/-- The text has no character besides blanks. -/
def isBlankText (text : String) : Bool := text.toList.all isBlank

end DesignMatrix.Text
