import Snowform.Ddl.Procedure
import Snowform.Ddl.Table
import Snowform.Lexical.Statement

/-!
# Scripts

A script is read statement by statement.  Statements that create a table, a
view or a procedure become objects; one of them that cannot be read becomes a
diagnostic and does not touch its neighbours.  All other statements are
passed over.
-/

namespace Snowform

open Text Lexical

/-- An object that a statement creates. -/
inductive DdlObject where
  | table (definition : Table)
  | view (definition : View)
  | procedure (definition : Procedure)
  deriving DecidableEq

namespace DdlObject

def kind : DdlObject → ObjectKind
  | .table _ => .table
  | .view _ => .view
  | .procedure _ => .procedure

def name : DdlObject → QualifiedName
  | .table definition => definition.name
  | .view definition => definition.name
  | .procedure definition => definition.name

/-- What a statement creates, if it creates an object. -/
def kindOf? (statement : Text) : Option ObjectKind :=
  let stripped := stripComments statement
  [ObjectKind.table, .view, .procedure].find? fun object =>
    creates object stripped

def read (object : ObjectKind) (statement : Text) :
    Reading (DdlObject × List Note) :=
  match object with
  | .table =>
      (Table.read statement).map fun (definition, notes) =>
        (.table definition, notes)
  | .view =>
      (View.read statement).map fun definition => (.view definition, [])
  | .procedure =>
      (Procedure.read statement).map fun definition =>
        (.procedure definition, [])

end DdlObject

/-- What a script creates, and what of it could not be read. -/
structure Script where
  objects : List DdlObject := []
  diagnostics : List Diagnostic := []
  notes : List Note := []
  deriving DecidableEq

namespace Script

/-- One script behind another. -/
def append (first second : Script) : Script where
  objects := first.objects ++ second.objects
  diagnostics := first.diagnostics ++ second.diagnostics
  notes := first.notes ++ second.notes

/-- Read one statement as a script of its own. -/
def ofStatement (statement : Statement) : Except Fault Script :=
  match DdlObject.kindOf? statement.text with
  | none => .ok {}
  | some object =>
      match DdlObject.read object statement.text with
      | .ok (created, notes) => .ok { objects := [created], notes := notes }
      | .error (.rejected reason) =>
          let diagnostic : Diagnostic :=
            ⟨statement.line, excerpt statement.text, reason⟩
          .ok {
            diagnostics := [diagnostic]
            notes := [.droppedStatement diagnostic] }
      | .error (.broken fault) => .error fault

/-- Read statements in order. -/
def ofStatements : List Statement → Except Fault Script
  | [] => .ok {}
  | statement :: others => do
      let first ← ofStatement statement
      let second ← ofStatements others
      return first.append second

def read (text : Text) : Except Fault Script :=
  ofStatements (statements text)

end Script

end Snowform
