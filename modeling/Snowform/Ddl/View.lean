import Snowform.Ddl.Clause
import Snowform.Ddl.Head
import Snowform.Ddl.Listing
import Snowform.Lexical.Parentheses
import Snowform.Lexical.Strip

/-!
# CREATE VIEW

A view has a query, which starts behind the first word `AS` after the name
and the column list.  Comments at the end of the query are left out, since
they would hide the semicolon that is put there.
-/

namespace Snowform

open Text Lexical

structure View where
  name : QualifiedName
  /-- The names of its columns, if the statement lists them. -/
  columns : Option (List Text) := none
  /-- The query with its comments, ended by a semicolon. -/
  query : Text := []
  comment : Option Text := none
  secure : Bool := false
  orReplace : Bool := false
  deriving DecidableEq

def asKeyword? {α : Type} [Shown α] : Recogniser α Unit :=
  fun behind ahead => (wholeWord? "AS" behind ahead).map fun rest => ((), rest)

/-- Leave out the blanks at the end of a masked text. -/
def dropFinalBlanks {α : Type} [Shown α] (list : List α) : List α :=
  dropEndWhile (shows isBlank) list

namespace View

/-- The names at the start of the entries of a column list. -/
def columnNames (list : Text) : List Text :=
  ((splitCommas (stripComments list)).map fun entry =>
    unquote (leadingIdentifier entry).1).filter fun name => !name.isEmpty

/-- Read the column list that may follow the name of a view. -/
def readColumns (rest : List Cell) :
    Reading (Option (List Text) × List Cell) := do
  let list := skipBlanks rest
  if startsWith (· == '(') list then
    let (inside, tail) ← Reading.require
      (.unbalancedParentheses .viewColumns) (parenthesised? list)
    return (some (columnNames (← readSource inside)), tail)
  else
    return (none, rest)

/-- End a query with a semicolon, unless it has one. -/
def terminated (query : Text) : Text :=
  if query.getLast? = some ';' then query else query ++ [';']

def read (statement : Text) : Reading View := do
  let (flags, start) ←
    Reading.require (.missingName .view) (readHead? .view (cells statement))
  let (name, rest) ← readName .view start
  let (columns, tail) ← readColumns rest
  let (before, _, body) ←
    Reading.require (.missingBody .view) (findFirst asKeyword? [] tail)
  let query := trim (← readSource (dropFinalBlanks body))
  if query.isEmpty then
    Reading.reject (.missingBody .view)
  else
    let head := upTo start (tail.drop before.length)
    return {
      name := name
      columns := columns
      query := terminated query
      comment := ← Reading.ofFault (findComment head)
      secure := flags.secure
      orReplace := flags.orReplace }

end View

end Snowform
