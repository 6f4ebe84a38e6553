import HoareCheck.Text.CharRange

/-!
# Blanks

The characters that count as white space: the Unicode ones, the line and
paragraph separators, and the four information separators of ASCII.
-/

namespace HoareCheck.Text

def blankRanges : CharRanges :=
  [(0x9, 0xD), (0x1C, 0x20), (0x85, 0x85), (0xA0, 0xA0), (0x1680, 0x1680),
   (0x2000, 0x200A), (0x2028, 0x2029), (0x202F, 0x202F), (0x205F, 0x205F), (0x3000, 0x3000)]

def isBlank (char : Char) : Bool :=
  blankRanges.holds char

/-- Drops the blanks at the front. -/
def dropBlanks (text : List Char) : List Char :=
  text.dropWhile isBlank

/-- Drops the blanks at both ends. -/
def trimBlanks (text : List Char) : List Char :=
  (dropBlanks (dropBlanks text).reverse).reverse

end HoareCheck.Text
