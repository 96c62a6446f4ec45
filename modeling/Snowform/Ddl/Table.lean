import Snowform.Ddl.Clause
import Snowform.Ddl.Column
import Snowform.Ddl.Head
import Snowform.Lexical.Strip
import Snowform.Note
import Snowform.Text.Upper

/-!
# CREATE TABLE

A table has columns and constraints, both taken from its column list, and may
have a comment and clustering keys.  Constraints that are written without a
name get one made from the name of the table and their kind, numbered if it
is in use already.
-/

namespace Snowform

open Text Lexical

structure Table where
  name : QualifiedName
  columns : List Column := []
  constraints : List Constraint := []
  comment : Option Text := none
  clusterBy : Option (List Text) := none
  deriving DecidableEq

/-! ## Names of constraints -/

/--
The first number from a given one on that is not among the endings, where a
number of tries is left.  An ending that was met is not met again.
-/
def freshNumberFrom (number : Nat) (endings : List Text) : Nat → Nat
  | 0 => number
  | tries + 1 =>
      let ending := decimal number
      if endings.contains ending then
        freshNumberFrom (number + 1) (endings.erase ending) tries
      else
        number

/--
The first number from two on that is not among the endings.  After as many
tries as there are endings none of them is left.
-/
def freshNumber (endings : List Text) : Nat :=
  freshNumberFrom 2 endings endings.length

/--
The base name, or else the first of its numbered forms from two on, that is
not in use.
-/
def freshName (used : List Text) (base : Text) : Text :=
  if used.contains base then
    let stem := base ++ ['_']
    stem ++ decimal (freshNumber (used.filterMap (dropStart? stem)))
  else
    base

/-- Name a constraint of a table, given the names in use. -/
def DraftConstraint.named (draft : DraftConstraint)
    (table : Text) (used : List Text) : Constraint :=
  let base := upper table ++ '_' :: draft.kind.abbreviation
  { draft with name := draft.name.getD (freshName used base) }

namespace Table

/-! ## The column list -/

/-- What has been read of a column list. -/
structure Contents where
  columns : List Column := []
  constraints : List Constraint := []
  notes : List Note := []

namespace Contents

/-- Add constraints in order, each named apart from those before it. -/
def addConstraints (table : Text) (contents : Contents)
    (drafts : List DraftConstraint) : Contents :=
  drafts.foldl (fun contents draft =>
    let used := contents.constraints.map (·.name)
    { contents with
      constraints := contents.constraints ++ [draft.named table used] })
    contents

def addNote (contents : Contents) (note : Note) : Contents :=
  { contents with notes := contents.notes ++ [note] }

/-- Add what an entry says about a column. -/
def addColumn (table : Text) (contents : Contents) (entry : ColumnEntry) :
    Contents :=
  addConstraints table
    { contents with
      columns := contents.columns ++ [entry.column]
      notes := contents.notes ++ entry.skipped.map
        (Note.skippedOption · entry.column.name) }
    entry.constraints

def readColumn (table : Text) (contents : Contents) (entry : Text) :
    Except Fault Contents := do
  match ← Column.read? entry with
  | some column => return contents.addColumn table column
  | none => return contents.addNote (.skippedEntry table entry)

/-- Read an entry of the column list of a table. -/
def readEntry (table : Text) (contents : Contents) (entry : Text) :
    Except Fault Contents := do
  if isConstraintEntry entry then
    match ← readConstraint? entry with
    | some draft => return contents.addConstraints table [draft]
    | none =>
        if isNamedConstraintEntry entry then
          return contents.addNote (.skippedConstraint table entry)
        else
          contents.readColumn table entry
  else
    contents.readColumn table entry

def read (table list : Text) : Except Fault Contents :=
  (splitCommas (stripComments list)).foldlM (readEntry table) {}

end Contents

/-! ## Clustering keys -/

/-- A clustering clause at a place, up to its opening parenthesis. -/
def clusterBy? {α : Type} [Shown α] : Recogniser α (List α) :=
  fun behind ahead => do
    let cluster ←
      if isBoundary behind ahead then keyword? "CLUSTER" ahead else none
    let keyword ← blanks? cluster >>= keyword? "BY"
    let start := skipBlanks keyword
    let list := ((keyword? "LINEAR" start).map skipBlanks).getD start
    let inside ← character? '(' list
    return (list, inside)

/-- The keys of the first clustering clause, unless there are none. -/
def readClusterBy (tail : List Cell) : Except Fault (Option (List Text)) :=
  let list := do
    let (_, list, _) ← findFirst clusterBy? [] tail
    parenthesised? list
  match list with
  | none => .ok none
  | some (inside, _) => do
      let keys := identifierList (stripComments (← sourceOf inside))
      return if keys.isEmpty then none else some keys

/-! ## The statement -/

/-- Read a statement that creates a table, with the notes taken on the way. -/
def read (statement : Text) : Reading (Table × List Note) := do
  let (_, start) ←
    Reading.require (.missingName .table) (readHead? .table (cells statement))
  let (name, rest) ← readName .table start
  let list := skipBlanks rest
  if startsWith (· == '(') list then
    let (inside, tail) ←
      Reading.require (.unbalancedParentheses .columns) (parenthesised? list)
    let contents ←
      Reading.ofFault (Contents.read name.name (← readSource inside))
    let table : Table :=
      { name := name
        columns := contents.columns
        constraints := contents.constraints
        comment := ← Reading.ofFault (findComment tail)
        clusterBy := ← Reading.ofFault (readClusterBy tail) }
    return (table, contents.notes)
  else
    Reading.reject .missingColumnList

end Table

end Snowform
