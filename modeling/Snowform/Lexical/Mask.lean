import Snowform.Lexical.Region
import Snowform.Text.Bytes

/-!
# The masked script

Structure is read from a script in which nothing written in a string, a
quoted identifier, a dollar body or a comment can be seen.  The masked script
is a list of cells, one for every character that it shows.  Code, delimiters
and line feeds are shown as they are.  Any other character is veiled: it
shows a fill character, and one more for each further byte it has, so that
the masked script is as many bytes long as the script.

A list of cells that begins or ends inside a veiled character is no part of
the script.  `source?` gives the characters of all other lists.
-/

namespace Snowform

open Text

/-- One shown character of a masked script. -/
inductive Cell where
  /-- A character that is shown as it is. -/
  | plain (character : Char)
  /-- The first byte of a character that is hidden behind a fill. -/
  | veiled (fill character : Char)
  /-- A further byte of the hidden character before it. -/
  | padding (fill : Char)
  deriving DecidableEq

/-- Elements of which a reader sees one character. -/
class Shown (α : Type) where
  /-- The character that is seen. -/
  shown : α → Char

export Shown (shown)

instance : Shown Char := ⟨id⟩

/-- The character that a cell shows. -/
def Cell.visible : Cell → Char
  | .plain character => character
  | .veiled fill _ => fill
  | .padding fill => fill

instance : Shown Cell := ⟨Cell.visible⟩

/-- The number of bytes of what a cell shows. -/
def Cell.width : Cell → Nat
  | .plain character => character.utf8Size
  | .veiled _ _ => 1
  | .padding _ => 1

namespace Lexical

/-- The cells of a character that is hidden; a line feed stays visible. -/
def veil (fill character : Char) : List Cell :=
  if character = '\n' then
    [.plain character]
  else
    .veiled fill character ::
      List.replicate (character.utf8Size - 1) (.padding fill)

end Lexical

/-- What a quoted or dollar region starts with and should end with. -/
def Region.delimiter (region : Region) : Text :=
  match region.kind with
  | .dollarQuote => (Lexical.dollarMarker? region.text).getD (region.text.take 1)
  | _ => region.text.take 1

/--
The length of the closing delimiter: a region has one when it ends with its
delimiter and has room for both.
-/
def Region.closingLength (region : Region) : Nat :=
  let delimiter := region.delimiter
  if 2 * delimiter.length ≤ region.text.length ∧
      delimiter.isSuffixOf region.text then
    delimiter.length
  else
    0

/-- The cells of a region whose inside is hidden between its delimiters. -/
def Region.delimitedCells (region : Region) : List Cell :=
  let opening := region.text.take region.delimiter.length
  let others := region.text.drop region.delimiter.length
  let inside := others.length - region.closingLength
  opening.map .plain ++ (others.take inside).flatMap (Lexical.veil '_') ++
    (others.drop inside).map .plain

/-- The cells of a region. -/
def Region.cells (region : Region) : List Cell :=
  match region.kind with
  | .code => region.text.map .plain
  | .lineComment => region.text.flatMap (Lexical.veil ' ')
  | .blockComment => region.text.flatMap (Lexical.veil ' ')
  | _ => region.delimitedCells

namespace Lexical

/-- The masked script. -/
def cells (script : Text) : List Cell :=
  (lexemes script).flatMap Region.cells

/-- The masked script as it is seen. -/
def mask (script : Text) : Text :=
  (cells script).map Cell.visible

/--
The characters of a list of cells that begins with a number of further bytes
of an earlier character.
-/
def sourceFrom? : Nat → List Cell → Option Text
  | 0, [] => some []
  | 0, .plain character :: rest =>
      (sourceFrom? 0 rest).map (character :: ·)
  | 0, .veiled _ character :: rest =>
      (sourceFrom? (character.utf8Size - 1) rest).map (character :: ·)
  | 0, .padding _ :: _ => none
  | missing + 1, .padding _ :: rest => sourceFrom? missing rest
  | _ + 1, _ => none

/-- The part of the script that cells stand for, if they cut no character. -/
def source? (list : List Cell) : Option Text :=
  sourceFrom? 0 list

end Lexical

end Snowform
