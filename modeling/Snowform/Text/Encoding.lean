import Snowform.Text.Basic

/-!
# Bytes of texts

Files hold bytes.  A file is read as UTF-8, behind one byte order mark if
there is one.  What is not UTF-8 may start with a byte order mark again, which
then tells the encoding; without one it is Windows-1252, in which every byte
is a character.  Bytes that break the rules of the encoding their mark tells
have no text.
-/

namespace Snowform

/-- The content of a file. -/
abbrev Bytes := List UInt8

namespace Text

/-! ## UTF-8 -/

/-- The bytes of a text in UTF-8. -/
def encode (text : Text) : Bytes :=
  (String.ofList text).toUTF8.toList

/-- The text of bytes, if they are valid UTF-8. -/
def decodeUtf8? (bytes : Bytes) : Option Text :=
  (String.fromUTF8? ⟨bytes.toArray⟩).map String.toList

/-! ## UTF-16 -/

/-- The order of the two bytes of a unit. -/
inductive ByteOrder where
  | lowFirst
  | highFirst
  deriving DecidableEq

/-- The unit that two bytes make. -/
def ByteOrder.unit (order : ByteOrder) (first second : UInt8) : Nat :=
  match order with
  | .lowFirst => first.toNat + 0x100 * second.toNat
  | .highFirst => 0x100 * first.toNat + second.toNat

/-- The units of bytes, if no byte is left over. -/
def unitsOf? (order : ByteOrder) : Bytes → Option (List Nat)
  | [] => some []
  | [_] => none
  | first :: second :: rest =>
      (unitsOf? order rest).map (order.unit first second :: ·)

/-- Whether a unit is the first one of a pair that makes one character. -/
def isLeadingUnit (unit : Nat) : Bool :=
  0xD800 ≤ unit && unit < 0xDC00

/-- Whether a unit is the second one of a pair that makes one character. -/
def isTrailingUnit (unit : Nat) : Bool :=
  0xDC00 ≤ unit && unit < 0xE000

/-- The character that a pair of units makes. -/
def pairedCharacter (leading trailing : Nat) : Char :=
  Char.ofNat (0x10000 + 0x400 * (leading - 0xD800) + (trailing - 0xDC00))

/-- The text of units, if every unit of a pair has its other one. -/
def textOfUnits? : List Nat → Option Text
  | [] => some []
  | [unit] =>
      if isLeadingUnit unit || isTrailingUnit unit then
        none
      else
        some [Char.ofNat unit]
  | first :: second :: rest =>
      if isTrailingUnit first then
        none
      else if !isLeadingUnit first then
        (textOfUnits? (second :: rest)).map (Char.ofNat first :: ·)
      else if isTrailingUnit second then
        (textOfUnits? rest).map (pairedCharacter first second :: ·)
      else
        none

def decodeUtf16? (order : ByteOrder) (bytes : Bytes) : Option Text := do
  textOfUnits? (← unitsOf? order bytes)

/-! ## Windows-1252 -/

/-- The code points of the bytes from 0x80 to 0x9F in Windows-1252. -/
def windowsCodes : List Nat :=
  [0x20AC, 0x81, 0x201A, 0x0192, 0x201E, 0x2026, 0x2020, 0x2021,
    0x02C6, 0x2030, 0x0160, 0x2039, 0x0152, 0x8D, 0x017D, 0x8F,
    0x90, 0x2018, 0x2019, 0x201C, 0x201D, 0x2022, 0x2013, 0x2014,
    0x02DC, 0x2122, 0x0161, 0x203A, 0x0153, 0x9D, 0x017E, 0x0178]

/-- The character of a byte in Windows-1252. -/
def windowsCharacter (byte : UInt8) : Char :=
  let code := byte.toNat
  if 0x80 ≤ code then
    Char.ofNat (windowsCodes.getD (code - 0x80) code)
  else
    Char.ofNat code

/-! ## Files -/

/-- The byte order mark in UTF-8. -/
def byteOrderMark : Bytes := [0xEF, 0xBB, 0xBF]

/-- The bytes without a byte order mark at their start. -/
def withoutMark (bytes : Bytes) : Bytes :=
  if byteOrderMark.isPrefixOf bytes then bytes.drop 3 else bytes

/-- The text of bytes in the encoding that a mark at their start tells. -/
def decodeMarked? : Bytes → Option Text
  | 0xFF :: 0xFE :: rest => decodeUtf16? .lowFirst rest
  | 0xFE :: 0xFF :: rest => decodeUtf16? .highFirst rest
  | 0xEF :: 0xBB :: 0xBF :: rest => decodeUtf8? rest
  | bytes => some (bytes.map windowsCharacter)

/-- The text of a file, if its bytes have one. -/
def decode? (bytes : Bytes) : Option Text :=
  let content := withoutMark bytes
  match decodeUtf8? content with
  | some text => some text
  | none => decodeMarked? content

end Text

end Snowform
