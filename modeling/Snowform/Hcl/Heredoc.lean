import Snowform.Text.Blank
import Snowform.Text.Bytes

/-!
# Heredocs

A body of several lines is written as an indented heredoc.  Line ends become
line feeds, empty lines around the body go, and the indentation that all
lines share is replaced by four blanks.  The body ends at a line that holds
the marker alone.
-/

namespace Snowform.Hcl

open Text

def trimLineFeeds (text : Text) : Text :=
  dropEndWhile (· == '\n') (text.dropWhile (· == '\n'))

/--
The lines of a text.  A carriage return before a line feed belongs to the
line end, and nothing stands behind a final line feed.
-/
def lines (text : Text) : List Text :=
  match (piecesAt (· == '\n') text).reverse with
  | [] => []
  | last :: earlier =>
      earlier.reverse.map (fun line => (dropEnd? "\r" line).getD line) ++
        if last.isEmpty then [] else [last]

/-- Whether a line holds nothing but blanks. -/
def isBlankLine (line : Text) : Bool :=
  line.all isBlank

def bodyLines (body : Text) : List Text :=
  lines (trimLineFeeds (replaceAll "\r\n" "\n" body))

/-- The number of bytes of the blanks that a line starts with. -/
def indentation (line : Text) : Nat :=
  byteSize (line.takeWhile isBlank)

/-- The least indentation of the lines that are not blank. -/
def commonIndentation (lines : List Text) : Nat :=
  (((lines.filter fun line => !isBlankLine line).map indentation).min?).getD 0

/-- The marker that ends a body: a body line must not be the usual one. -/
def marker (lines : List Text) : Text :=
  if lines.any fun line => trim line == "EOT".toList then "EOSQL" else "EOT"

/--
A line of a body as it is written, where a number of bytes of indentation is
shared by all lines.  A line that cannot be cut there loses all indentation.
-/
def writeLine (shared : Nat) (line : Text) : Text :=
  if isBlankLine line then
    []
  else
    ("    " : Text) ++
      trimEnd ((dropBytes? shared line).getD (trimStart line))

/-- A body as an indented heredoc. -/
def heredoc (body : Text) : Text :=
  let lines := bodyLines body
  let shared := commonIndentation lines
  let written := lines.flatMap fun line => writeLine shared line ++ ['\n']
  ("<<-" : Text) ++ marker lines ++ '\n' :: written ++
    ' ' :: ' ' :: marker lines

end Snowform.Hcl
