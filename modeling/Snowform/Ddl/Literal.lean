import Snowform.Text.Blank

/-!
# String literals

A string literal stands between single quotes, and a quote inside it is
written twice.
-/

namespace Snowform

open Text

/--
The text of a string literal.  A literal without its closing quote keeps all
that follows the opening one.
-/
def unquoteLiteral (written : Text) : Text :=
  let trimmed := trim written
  let opened := (dropStart? "'" trimmed).getD trimmed
  let inside := (dropEnd? "'" opened).getD opened
  replaceAll "''" "'" inside

end Snowform
