import Snowform.Ddl.Rejection
import Snowform.Text.Blank

/-!
# Diagnostics

A diagnostic says which statement of a script was dropped and why.  It shows
the start of the statement on one line.
-/

namespace Snowform

open Text

/-- The number of characters of a statement that a diagnostic shows. -/
def excerptLength : Nat := 80

/-- The start of a statement, with single blanks between its words. -/
def excerpt (text : Text) : Text :=
  let line := [' '].intercalate (words text)
  if line.length ≤ excerptLength then
    line
  else
    line.take excerptLength ++ "..."

def decimal (number : Nat) : Text :=
  Nat.toDigits 10 number

/-- A statement that was recognised and could not be read. -/
structure Diagnostic where
  /-- The line that the statement starts on. -/
  line : Nat
  excerpt : Text
  reason : Rejection
  deriving DecidableEq

def Diagnostic.message (diagnostic : Diagnostic) : Text :=
  ("line " : Text) ++ decimal diagnostic.line ++ (": " : Text) ++
    diagnostic.reason.message ++ (" (" : Text) ++ diagnostic.excerpt ++ [')']

end Snowform
