import Snowform.Ddl.Name
import Snowform.Lexical.Region

/-!
# Lists separated by commas

A comma separates where no quote is open and the parentheses before it
balance.  Entries are trimmed and empty ones dropped.
-/

namespace Snowform

open Text

/-- What is open at a place of a list. -/
structure Nesting where
  /-- The quote that is open. -/
  quote : Option Char := none
  /-- Opening parentheses less closing ones. -/
  depth : Int := 0
  deriving DecidableEq

namespace Nesting

/-- What is open behind a further character. -/
def advance (nesting : Nesting) (character : Char) : Nesting :=
  match nesting.quote with
  | some mark =>
      if character = mark then { nesting with quote := none } else nesting
  | none =>
      if character = '\'' ∨ character = '"' then
        { nesting with quote := some character }
      else if character = '(' then
        { nesting with depth := nesting.depth + 1 }
      else if character = ')' then
        { nesting with depth := nesting.depth - 1 }
      else
        nesting

def separates (nesting : Nesting) (character : Char) : Bool :=
  nesting.quote == none && nesting.depth == 0 && character == ','

end Nesting

/-- The entries of a list, trimmed and without the empty ones. -/
def splitCommas (text : Text) : List Text :=
  ((pieces Nesting.separates Nesting.advance {} text).map trim).filter
    fun entry => !entry.isEmpty

/-- The identifiers of a list, without the empty ones. -/
def identifierList (text : Text) : List Text :=
  ((splitCommas text).map unquote).filter fun name => !name.isEmpty

/--
The identifier that a text starts with, as it is written, and what follows
it.  A double-quoted one may hold blanks, any other ends at the first blank.
-/
def leadingIdentifier (text : Text) : Text × Text :=
  match trimStart text with
  | '"' :: rest =>
      let quoted := Lexical.quotedRest '"' rest
      ('"' :: quoted, rest.drop quoted.length)
  | start => start.span fun character => !isBlank character

end Snowform
