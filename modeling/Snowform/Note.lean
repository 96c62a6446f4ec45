import Snowform.Ddl.Diagnostic

/-!
# Notes

A note records a decision that the result does not show, such as an option
that was passed over.  Notes are part of what reading and writing return, in
the order in which the decisions were taken.
-/

namespace Snowform

open Text

/-- How important a note is. -/
inductive NoteLevel where
  | warning
  | detail
  deriving DecidableEq

def NoteLevel.title : NoteLevel → Text
  | .warning => "WARN"
  | .detail => "DEBUG"

/-- A decision that the result does not show. -/
inductive Note where
  /-- An option of a column is not known. -/
  | skippedOption (option column : Text)
  /-- An entry names a constraint that cannot be read. -/
  | skippedConstraint (table entry : Text)
  /-- An entry is neither a constraint nor a column. -/
  | skippedEntry (table entry : Text)
  /-- A statement was recognised and could not be read. -/
  | droppedStatement (diagnostic : Diagnostic)
  /-- A table is written without columns. -/
  | emptyTable (table : Text)
  /-- A check constraint has no resource. -/
  | skippedCheck (constraint table : Text)
  /-- A resource has the address of an earlier one. -/
  | duplicateResource (address : Text)
  /-- Dependencies are added to a resource. -/
  | dependencies (address : Text) (targets : List Text)
  deriving DecidableEq

namespace Note

def level : Note → NoteLevel
  | .droppedStatement _ => .warning
  | .skippedCheck _ _ => .warning
  | .duplicateResource _ => .warning
  | _ => .detail

def message : Note → Text
  | .skippedOption option column =>
      ("Skipping column option '" : Text) ++ option ++ ("' on " : Text) ++
        column
  | .skippedConstraint table entry =>
      ("Skipping unrecognized constraint in " : Text) ++ table ++
        (": " : Text) ++ entry
  | .skippedEntry table entry =>
      ("Skipping column entry in " : Text) ++ table ++ (": " : Text) ++ entry
  | .droppedStatement diagnostic =>
      ("Dropping statement at " : Text) ++ diagnostic.message
  | .emptyTable table =>
      ("Table " : Text) ++ table ++ (" has no columns" : Text)
  | .skippedCheck constraint table =>
      ("Skipping CHECK constraint " : Text) ++ constraint ++
        (" on " : Text) ++ table ++
        (": not supported by snowflake_table_constraint" : Text)
  | .duplicateResource address => ("Duplicate resource " : Text) ++ address
  | .dependencies address targets =>
      address ++ (" depends on " : Text) ++
        (", " : Text).intercalate targets

end Note

end Snowform
