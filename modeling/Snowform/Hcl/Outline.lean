import Snowform.Hcl.Block

/-!
# Outlines of resource blocks

A block is read back line by line.  A line is an attribute, the opening of a
block or the closing of one, whatever its margin.  The outline of a block is
what its lines say, in order, up to a body of several lines, with the value
of every attribute as it is written.

Values are read back by taking the marks off again.
-/

namespace Snowform.Hcl

open Text

/-! ## Lines -/

/-- What a line says, if it says something. -/
def readLine? (line : Text) : Option Item :=
  let inside := line.dropWhile (· == ' ')
  let word := inside.takeWhile (· != ' ')
  let rest := inside.dropWhile (· != ' ')
  if inside = ['\x7d'] then
    some .closing
  else if rest = [' ', '\x7b'] then
    some (.opening word)
  else
    (dropStart? " = " rest).map (Item.raw word)

/-- Whether a line is an attribute whose value starts a heredoc. -/
def startsBody (line : Text) : Bool :=
  match readLine? line with
  | some (.raw _ value) => ("<<-" : Text).isPrefixOf value
  | _ => false

/-! ## Outlines -/

/-- What the lines of a block say behind the first one. -/
def outline (content : Text) : List Item :=
  (((piecesAt (· == '\n') content).drop 1).takeWhile fun line =>
    !startsBody line).filterMap readLine?

namespace Item

/-- How an item appears in the outline of its block, if it does. -/
def outlined? : Item → Option Item
  | .raw key value => some (.raw key value)
  | .text key value => some (.raw key (quoted value))
  | .flag key value => some (.raw key (if value then "true" else "false"))
  | .texts key values => some (.raw key (listed values))
  | .heredoc _ _ => none
  | .opening name => some (.opening name)
  | .closing => some .closing
  | .blankLine => none

/-- The value of an attribute with a key. -/
def valueFor? (key : Text) : Item → Option Text
  | .raw other value => if other = key then some value else none
  | _ => none

end Item

/-- The values of the attributes with a key, at any depth. -/
def valuesFor (key : Text) (items : List Item) : List Text :=
  items.filterMap (Item.valueFor? key)

/-! ## Written values -/

/-- The character that a letter behind a backslash is written for. -/
def markedCharacter (letter : Char) : Char :=
  match letter with
  | 'n' => '\n'
  | 'r' => '\r'
  | 't' => '\t'
  | '0' => '\x00'
  | other => other

/-- The value in front of the first quote without a mark, and what follows. -/
def unescape? : Text → Option (Text × Text)
  | [] => none
  | '"' :: rest => some ([], rest)
  | '\\' :: letter :: rest =>
      (unescape? rest).map fun (value, after) =>
        (markedCharacter letter :: value, after)
  | character :: rest =>
      (unescape? rest).map fun (value, after) => (character :: value, after)

end Snowform.Hcl
