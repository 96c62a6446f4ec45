import Snowform.Text.Ranges

/-!
# Blanks

A blank is a character of the Unicode property `White_Space`.  Trimming,
splitting into words and skipping all use this one set; in particular U+200B
and U+FEFF are no blanks, while U+0085 and U+00A0 are.
-/

namespace Snowform.Text

/-- The characters of the Unicode property `White_Space`. -/
def blankRanges : List (Nat × Nat) :=
  [(0x09, 0x0D), (0x20, 0x20), (0x85, 0x85), (0xA0, 0xA0),
    (0x1680, 0x1680), (0x2000, 0x200A), (0x2028, 0x2029),
    (0x202F, 0x202F), (0x205F, 0x205F), (0x3000, 0x3000)]

def isBlank (character : Char) : Bool :=
  inRanges blankRanges character

def trimStart (text : Text) : Text :=
  text.dropWhile isBlank

def trimEnd (text : Text) : Text :=
  dropEndWhile isBlank text

/-- Drop the blanks at both ends. -/
def trim (text : Text) : Text :=
  trimEnd (trimStart text)

/-- The maximal stretches without blanks, in order. -/
def words (text : Text) : List Text :=
  (piecesAt isBlank text).filter fun word => !word.isEmpty

end Snowform.Text
