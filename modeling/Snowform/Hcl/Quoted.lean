import Snowform.Text.Basic

/-!
# Quoted values

A value is written between double quotes.  Quotes, dollar signs and
backslashes in it, and the characters that would break the line, are written
with a backslash.
-/

namespace Snowform.Hcl

/-- A character as it is written in a quoted value. -/
def escapeCharacter (character : Char) : Text :=
  match character with
  | '\\' => ['\\', '\\']
  | '"' => ['\\', '"']
  | '\'' => ['\\', '\'']
  | '\n' => ['\\', 'n']
  | '\r' => ['\\', 'r']
  | '\t' => ['\\', 't']
  | '$' => ['\\', '$']
  | '\x00' => ['\\', '0']
  | other => [other]

/-- A text as it is written in a quoted value. -/
def escape (text : Text) : Text :=
  text.flatMap escapeCharacter

def quoted (value : Text) : Text :=
  '"' :: escape value ++ ['"']

end Snowform.Hcl
