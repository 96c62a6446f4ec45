import Snowform.Ddl.Literal
import Snowform.Ddl.Name
import Snowform.Ddl.Rejection
import Snowform.Lexical.Keyword
import Snowform.Text.Bytes
import Snowform.Text.Search

/-!
# Parts that statements share

The head of a `CREATE` statement, the name of the object and the comment
clause are found on the masked statement.  What they say is then taken from
the characters behind the cells.
-/

namespace Snowform

open Text Lexical

/-- The characters behind cells, or a fault if they cut one. -/
def sourceOf (list : List Cell) : Except Fault Text :=
  match source? list with
  | some text => .ok text
  | none => .error .splitCharacter

/-- The characters behind cells, as part of reading a statement. -/
def readSource (list : List Cell) : Reading Text :=
  Reading.ofFault (sourceOf list)

section Recognisers

variable {α : Type} [Shown α]

def endsName (character : Char) : Bool :=
  isBlank character || character == '(' || character == ';'

/--
A comment clause that starts at a place: its elements from the keyword to the
closing quote of the literal, and what follows.
-/
def commentClause? : Recogniser α (List α) := fun behind ahead => do
  let keyword ←
    if isBoundary behind ahead then keyword? "COMMENT" ahead else none
  let equals ← character? '=' (skipBlanks keyword)
  let inside ← character? '\'' (skipBlanks equals)
  let ended := inside.dropWhile (shows (· != '\''))
  let after := (character? '\'' ended).getD ended
  some (upTo ahead after, after)

end Recognisers

/--
Read the name of an object behind blanks.  The name ends at the first blank,
opening parenthesis or semicolon of the masked statement.
-/
def readName (object : ObjectKind) (list : List Cell) :
    Reading (QualifiedName × List Cell) := do
  let start := skipBlanks list
  let written := start.takeWhile (shows fun shown => !endsName shown)
  if written.isEmpty then
    Reading.reject (.missingName object)
  else
    let name := QualifiedName.ofText (← readSource written)
    if name.name.isEmpty then
      Reading.reject (.missingName object)
    else
      return (name, start.drop written.length)

/--
The text of the first comment clause.  Its literal starts at the first single
quote that the clause holds in the statement itself.
-/
def findComment (list : List Cell) : Except Fault (Option Text) :=
  match findFirst commentClause? [] list with
  | none => .ok none
  | some (_, clause, _) => do
      let written ← sourceOf clause
      return some (unquoteLiteral (written.dropWhile (· != '\'')))

/-! ## Asking by offsets -/

/-- The number of bytes that cells show. -/
def shownBytes (list : List Cell) : Nat :=
  coveredSize Cell.width list

/-- Read the name of an object from an offset on, and where it ends. -/
def readNameAt (object : ObjectKind) (statement : Text) (start : Nat) :
    Reading (QualifiedName × Nat) := do
  let masked := cells statement
  match cutAt? Cell.width start masked with
  | none => .error (.broken .splitCharacter)
  | some (_, list) =>
      let (name, rest) ← readName object list
      return (name, shownBytes masked - shownBytes rest)

/-- The text of the first comment clause between two offsets. -/
def findCommentBetween (statement : Text) (start stop : Nat) :
    Except Fault (Option Text) :=
  let part := do
    let (_, list) ← cutAt? Cell.width start (cells statement)
    if start ≤ stop then
      let (part, _) ← cutAt? Cell.width (stop - start) list
      return part
    else
      none
  match part with
  | none => .error .splitCharacter
  | some part => findComment part

end Snowform
