import Snowform.Lexical.Parentheses
import Snowform.Lexical.Statement
import Snowform.Text.Bytes

/-!
# Places of a script

The structure of a script can also be asked for by byte offsets: where its
regions and statements start and end, where blanks end, and where a
parenthesis closes.
-/

namespace Snowform

open Text

/-- A region with the offsets of its first byte and of the byte behind it. -/
structure Span where
  region : Region
  start : Nat
  stop : Nat
  deriving DecidableEq

namespace Lexical

/-- Regions that follow each other, the first one at an offset. -/
def spansFrom (start : Nat) : List Region → List Span
  | [] => []
  | region :: others =>
      let stop := start + byteSize region.text
      ⟨region, start, stop⟩ :: spansFrom stop others

/-- The regions of a script with their places. -/
def spans (script : Text) : List Span :=
  spansFrom 0 (scan script)

/-- The kind of the region of a script that a byte belongs to. -/
def kindAt? (script : Text) (byte : Nat) : Option RegionKind :=
  ((spans script).find? fun span =>
    span.start ≤ byte && byte < span.stop).map fun span => span.region.kind

/-- The offset behind the blanks that start at an offset, if it is a place. -/
def placeBehindBlanks? (text : Text) (start : Nat) : Option Nat :=
  (dropBytes? start text).map fun rest =>
    start + byteSize (rest.takeWhile isBlank)

/--
The offset of the parenthesis that closes the one at an offset, if there is
an opening one and it is closed.
-/
def closingPlace? (text : Text) (opening : Nat) : Option Nat := do
  let rest ← dropBytes? opening text
  let (inside, _) ← parenthesised? rest
  return opening + 1 + byteSize inside

end Lexical

/-- A statement with the offset of its first byte. -/
structure PlacedStatement extends Statement where
  start : Nat
  deriving DecidableEq

/-- The offset behind a statement. -/
def PlacedStatement.stop (placed : PlacedStatement) : Nat :=
  placed.start + byteSize placed.text

namespace Lexical

/--
The statement that is left when a text between semicolons is trimmed, where
the text starts at the given offset and line.
-/
def placeStatement? (start line : Nat) (text : Text) :
    Option PlacedStatement :=
  let blanks := text.takeWhile isBlank
  let trimmed := trim text
  if trimmed.isEmpty then
    none
  else
    some ⟨⟨line + lineFeeds blanks, trimmed⟩, start + byteSize blanks⟩

/-- Place texts that follow each other with one semicolon between them. -/
def placeStatements (start line : Nat) : List Text → List PlacedStatement
  | [] => []
  | text :: others =>
      (placeStatement? start line text).toList ++
        placeStatements (start + byteSize text + 1) (line + lineFeeds text)
          others

/-- The statements of a script with their places. -/
def placedStatements (script : Text) : List PlacedStatement :=
  placeStatements 0 1 (statementTexts script)

end Lexical

end Snowform
