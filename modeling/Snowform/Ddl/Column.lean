import Snowform.Ddl.ConstraintEntry
import Snowform.Ddl.Literal

/-!
# Columns of tables

An entry of a column list is a name, a type and options.  Words are
separated by blanks; a type or a value that spans several words is joined
again with single blanks until its parentheses and quotes close.  Options
that are not known are remembered as skipped.
-/

namespace Snowform

open Text Lexical

structure Column where
  name : Text
  /-- The type as it is written. -/
  dataType : Text
  nullable : Bool := true
  /-- The default as it is written, quotes included. -/
  defaultValue : Option Text := none
  comment : Option Text := none
  deriving DecidableEq

/-- What an entry of a column list says about a column. -/
structure ColumnEntry where
  column : Column
  /-- The constraints written behind the column. -/
  constraints : List DraftConstraint := []
  /-- The options that are not known. -/
  skipped : List Text := []
  deriving DecidableEq

namespace Column

/-! ## Words that belong together -/

/-- Pairs of words that are one type. -/
def twoWordTypes : List (Text × Text) :=
  [("DOUBLE", "PRECISION"), ("CHARACTER", "VARYING"), ("CHAR", "VARYING")]

/-- Words of an entry; a double-quoted name at its start is one word. -/
def entryWords (entry : Text) : List Text :=
  let (name, rest) := leadingIdentifier (trim entry)
  if name.isEmpty then [] else name :: words rest

/--
Join a type with the words that belong to it: all words while a parenthesis
is open, and a word that starts with one.
-/
def extendType (dataType : Text) : List Text → Text × List Text
  | [] => (dataType, [])
  | word :: others =>
      if 0 < parenthesisBalance dataType then
        extendType (dataType ++ ' ' :: word) others
      else if startsWith (· == '(') word then
        extendType (dataType ++ word) others
      else
        (dataType, word :: others)

/-- Read a type that starts with a word. -/
def readType (first : Text) (others : List Text) : Text × List Text :=
  match others with
  | second :: rest =>
      if twoWordTypes.contains (asciiUpper first, asciiUpper second) then
        extendType (first ++ ' ' :: second) rest
      else
        extendType first others
  | [] => extendType first others

/-- Whether a value needs further words to be complete. -/
def isOpenValue (value : Text) : Bool :=
  value.count '\'' % 2 == 1 || 0 < parenthesisBalance value

/-- Join a value with further words until it is complete, and count them. -/
def extendValue (value : Text) : List Text → Text × Nat
  | [] => (value, 0)
  | word :: others =>
      if isOpenValue value then
        let (whole, count) := extendValue (value ++ ' ' :: word) others
        (whole, count + 1)
      else
        (value, 0)

/-- Read a value, with the number of words that it takes. -/
def readValue : List Text → Option Text × Nat
  | [] => (none, 0)
  | word :: others =>
      let (value, count) := extendValue word others
      (some value, count + 1)

/-! ## Options -/

/-- The text of a comment, which may be written without quotes. -/
def commentText (value : Text) : Text :=
  if startsWith (· == '\'') value then unquoteLiteral value else value

/-- An entry that is being read, with a constraint name that waits for use. -/
structure Progress where
  entry : ColumnEntry
  pendingName : Option Text := none

namespace Progress

/-- Add a constraint on the column, which takes the waiting name. -/
def addConstraint (progress : Progress)
    (kind : ConstraintKind) (references : Option ForeignKeyTarget) :
    Progress :=
  let constraint : DraftConstraint :=
    { kind := kind
      columns := [progress.entry.column.name]
      references := references
      name := progress.pendingName }
  { entry :=
      { progress.entry with
        constraints := progress.entry.constraints ++ [constraint] } }

def changeColumn (progress : Progress) (change : Column → Column) :
    Progress :=
  { progress with
    entry := { progress.entry with column := change progress.entry.column } }

/-- Read a flag of the last constraint, if there is one. -/
def readFlag? (progress : Progress) (word : Text) (next : Option Text) :
    Option (Progress × Bool) :=
  match progress.entry.constraints.reverse with
  | [] => none
  | last :: earlier =>
      (last.flags.read? word next).map fun (flags, both) =>
        let changed := { last with flags := flags }
        ({ progress with
          entry := { progress.entry with
            constraints := earlier.reverse ++ [changed] } }, both)

/--
Read a flag of the last constraint, or else skip the option.  The number
counts the further words that are used.
-/
def readOther (progress : Progress) (word : Text) (others : List Text) :
    Progress × Nat :=
  match progress.readFlag? word others.head? with
  | some (changed, both) => (changed, if both then 1 else 0)
  | none =>
      ({ progress with
        entry := { progress.entry with
          skipped := progress.entry.skipped ++ [word] } }, 0)

/--
Read one option, given the words behind its first one.  The number counts
the further words that are used.
-/
def readOption (progress : Progress) (word : Text) (others : List Text) :
    Except Fault (Progress × Nat) :=
  let upper := asciiUpper word
  let next := others.head?.map asciiUpper
  if upper = "NOT" ∧ next = some "NULL" then
    .ok (progress.changeColumn ({ · with nullable := false }), 1)
  else if upper = "NULL" then
    .ok (progress.changeColumn ({ · with nullable := true }), 0)
  else if upper = "DEFAULT" then
    let (value, count) := readValue others
    .ok (progress.changeColumn ({ · with defaultValue := value }), count)
  else if upper = "COMMENT" then
    let (value, count) := readValue others
    .ok (progress.changeColumn
      ({ · with comment := value.map commentText }), count)
  else if upper = "COLLATE" then
    .ok (progress, 1)
  else if upper = "CONSTRAINT" then
    .ok ({ progress with pendingName := others.head?.map unquote }, 1)
  else if upper = "PRIMARY" ∧ next = some "KEY" then
    .ok (progress.addConstraint .primaryKey none, 1)
  else if upper = "UNIQUE" then
    .ok (progress.addConstraint .unique none, 0)
  else if upper = "REFERENCES" then do
    match ← readReferences? ([' '].intercalate (word :: others)) with
    | none => return (progress, 0)
    | some (target, rest) =>
        return (progress.addConstraint .foreignKey (some target),
          others.length - (words rest).length)
  else
    .ok (progress.readOther word others)

/-- Read options behind a number of words that are already used. -/
def readOptions (progress : Progress) (used : Nat) :
    List Text → Except Fault Progress
  | [] => .ok progress
  | word :: others =>
      match used with
      | remaining + 1 => progress.readOptions remaining others
      | 0 => do
          let (changed, count) ← progress.readOption word others
          changed.readOptions count others

end Progress

def read? (entry : Text) : Except Fault (Option ColumnEntry) :=
  match entryWords entry with
  | name :: first :: others => do
      let (dataType, options) := readType first others
      let column : Column := { name := unquote name, dataType := dataType }
      let progress ← Progress.readOptions ⟨⟨column, [], []⟩, none⟩ 0 options
      return some progress.entry
  | _ => .ok none

end Column

end Snowform
