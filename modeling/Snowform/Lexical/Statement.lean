import Snowform.Lexical.Region
import Snowform.Text.Blank

/-!
# Statements of a script

A semicolon of code ends a statement.  Statements are trimmed, empty ones are
dropped, and each knows the line its first character stands on.
-/

namespace Snowform

open Text

/-- A statement of a script, trimmed and without its semicolon. -/
structure Statement where
  /-- The line of the first character, counted from one. -/
  line : Nat
  text : Text
  deriving DecidableEq

namespace Lexical

/-- Whether a smallest region is a semicolon of code. -/
def endsStatement (region : Region) : Bool :=
  region.kind == .code && region.text == [';']

/-- The texts between the semicolons of code. -/
def statementTexts (script : Text) : List Text :=
  (piecesAt endsStatement (lexemes script)).map fun regions =>
    regions.flatMap Region.text

/--
Trim the texts and number them, where the first text starts on the given
line.
-/
def numberStatements (line : Nat) : List Text → List Statement
  | [] => []
  | text :: others =>
      let following := numberStatements (line + lineFeeds text) others
      let trimmed := trim text
      if trimmed.isEmpty then
        following
      else
        ⟨line + lineFeeds (text.takeWhile isBlank), trimmed⟩ :: following

def statements (script : Text) : List Statement :=
  numberStatements 1 (statementTexts script)

end Lexical

end Snowform
