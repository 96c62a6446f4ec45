import Snowform.Text.Basic

/-!
# Template sequences

In a template a dollar or percent sign with an opening brace starts an
expression or a directive.  A text that is to be taken as it stands has the
sign doubled there.
-/

namespace Snowform.Hcl

open Text

def expressionOpening : Text := ['$', '\x7b']

def directiveOpening : Text := ['%', '\x7b']

/-- Double the signs that would open an expression or a directive. -/
def escapeTemplate (text : Text) : Text :=
  replaceAll directiveOpening ('%' :: directiveOpening)
    (replaceAll expressionOpening ('$' :: expressionOpening) text)

def templateExpression (expression : Text) : Text :=
  expressionOpening ++ expression ++ ['\x7d']

end Snowform.Hcl
