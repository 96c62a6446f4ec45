import Snowform.Text.Basic

/-!
# Why a statement is not read

A rejection is the reason why a recognised statement cannot be turned into an
object; the rest of the script is still read.  A fault means that a text
would have been cut inside a character; it ends the reading of the whole
script.
-/

namespace Snowform

/-- The kinds of objects that statements create. -/
inductive ObjectKind where
  | table
  | view
  | procedure
  deriving DecidableEq

def ObjectKind.keyword : ObjectKind → Text
  | .table => "TABLE"
  | .view => "VIEW"
  | .procedure => "PROCEDURE"

/-- The parenthesised lists that can stay open. -/
inductive ListRole where
  | columns
  | viewColumns
  | parameters
  deriving DecidableEq

/-- What a list is called in messages. -/
def ListRole.title : ListRole → Text
  | .columns => "column list"
  | .viewColumns => "view column list"
  | .parameters => "parameter list"

/-- Why a statement is not turned into an object. -/
inductive Rejection where
  | missingName (object : ObjectKind)
  | missingColumnList
  | missingParameterList
  | unbalancedParentheses (list : ListRole)
  | missingBody (object : ObjectKind)
  deriving DecidableEq

def Rejection.message : Rejection → Text
  | .missingName object =>
      ("object name not found after the " : Text) ++ object.keyword ++
        (" keyword" : Text)
  | .missingColumnList => "table has no column list"
  | .missingParameterList => "procedure has no parameter list"
  | .unbalancedParentheses list =>
      ("unbalanced parentheses in " : Text) ++ list.title
  | .missingBody object =>
      object.keyword ++ (" has no AS clause introducing its body" : Text)

/-- A text that is cut inside a character. -/
inductive Fault where
  | splitCharacter
  deriving DecidableEq

/-- How reading one statement can fail. -/
inductive Failure where
  | rejected (reason : Rejection)
  | broken (fault : Fault)
  deriving DecidableEq

/-- The result of reading one statement. -/
abbrev Reading := Except Failure

def Reading.reject {α : Type} (reason : Rejection) : Reading α :=
  .error (.rejected reason)

/-- The value of an option, which is rejected where there is none. -/
def Reading.require {α : Type} (reason : Rejection) : Option α → Reading α
  | some value => .ok value
  | none => Reading.reject reason

/-- A result that can only fail by a fault, as a reading. -/
def Reading.ofFault {α : Type} : Except Fault α → Reading α
  | .ok value => .ok value
  | .error fault => .error (.broken fault)

end Snowform
