import Snowform.Lexical.Region

/-!
# Scripts without comments

A line comment disappears up to its line feed, and a block comment leaves one
blank, so that the words around it stay apart.
-/

namespace Snowform

/-- What a region leaves when comments are removed. -/
def Region.withoutComment (region : Region) : Text :=
  match region.kind with
  | .lineComment => []
  | .blockComment => [' ']
  | _ => region.text

/-- What a region leaves when comments and the insides of strings go. -/
def Region.withoutString (region : Region) : Text :=
  match region.kind with
  | .singleQuote => ['\'', '\'']
  | _ => region.withoutComment

namespace Lexical

def stripComments (script : Text) : Text :=
  (lexemes script).flatMap Region.withoutComment

/-- The script without its comments and with every string emptied. -/
def stripCommentsAndStrings (script : Text) : Text :=
  (lexemes script).flatMap Region.withoutString

end Lexical

end Snowform
