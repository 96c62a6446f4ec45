import Snowform.Hcl.Block
import Snowform.Text.Blank
import Snowform.Text.Digit

/-!
# Defaults of columns

A default that is a number or a truth value is written as a constant, any
other as the text of an expression.
-/

namespace Snowform.Terraform

open Text

inductive ColumnDefault where
  | constant (literal : Text)
  | expression (text : Text)
  deriving DecidableEq

namespace ColumnDefault

/-- Whether a text is at least one digit and nothing else. -/
def isDigits (text : Text) : Bool :=
  !text.isEmpty && text.all isDecimalDigit

/-- Whether a text is a number: a sign, digits, and digits behind a point. -/
def isNumber (text : Text) : Bool :=
  let unsigned := (dropStart? "-" text).getD text
  let whole := unsigned.takeWhile isDecimalDigit
  !whole.isEmpty &&
    match unsigned.drop whole.length with
    | [] => true
    | point :: fraction => point == '.' && isDigits fraction

def isTruthValue (text : Text) : Bool :=
  sameIgnoringCase text "TRUE" || sameIgnoringCase text "FALSE"

/-- What a default is, as it is written in the statement. -/
def ofText (written : Text) : ColumnDefault :=
  let trimmed := trim written
  if isNumber trimmed then
    .constant trimmed
  else if isTruthValue trimmed then
    .constant (asciiLower trimmed)
  else
    .expression trimmed

/-- The attribute that a default is written as. -/
def key : ColumnDefault → Text
  | .constant _ => "constant"
  | .expression _ => "expression"

def value : ColumnDefault → Text
  | .constant literal => literal
  | .expression text => Hcl.quoted text

end ColumnDefault

end Snowform.Terraform
