import Snowform.Hcl.Heredoc
import Snowform.Hcl.Quoted

/-!
# Resource blocks

A resource block is a list of items: attributes, and the openings and
closings of blocks inside it.  Each item is written at the depth that the
items before it lead to, two blanks for every level, and whatever is still
open at the end is closed.
-/

namespace Snowform.Hcl

/-- A part of a resource block. -/
inductive Item where
  /-- An attribute whose value is written as it is given. -/
  | raw (key value : Text)
  /-- An attribute with a quoted value. -/
  | text (key value : Text)
  /-- An attribute that is true or false. -/
  | flag (key : Text) (value : Bool)
  /-- An attribute with a list of quoted values. -/
  | texts (key : Text) (values : List Text)
  /-- An attribute with a body, behind an empty line. -/
  | heredoc (key body : Text)
  /-- The opening of a block; an outer one stands behind an empty line. -/
  | opening (name : Text)
  /-- The closing of a block. -/
  | closing
  /-- An empty line. -/
  | blankLine
  deriving DecidableEq

/-- The blanks in front of a line at a depth. -/
def margin (depth : Nat) : Text :=
  List.replicate (2 * depth) ' '

/-- An attribute on a line of its own. -/
def assignment (depth : Nat) (key value : Text) : Text :=
  margin depth ++ key ++ (" = " : Text) ++ value ++ ['\n']

/-- The line that closes a block, at the depth outside of it. -/
def closingLine (depth : Nat) : Text :=
  margin depth ++ ['\x7d', '\n']

def listed (values : List Text) : Text :=
  '[' :: (", " : Text).intercalate (values.map quoted) ++ [']']

namespace Item

/-- The depth behind an item. -/
def depthAfter (depth : Nat) : Item → Nat
  | .opening _ => depth + 1
  | .closing => depth - 1
  | _ => depth

def write (depth : Nat) : Item → Text
  | .raw key value => Hcl.assignment depth key value
  | .text key value => Hcl.assignment depth key (quoted value)
  | .flag key value =>
      Hcl.assignment depth key (if value then "true" else "false")
  | .texts key values => Hcl.assignment depth key (listed values)
  | .heredoc key body =>
      '\n' :: Hcl.assignment depth key (Hcl.heredoc body)
  | .opening name =>
      (if depth = 1 then ['\n'] else []) ++
        margin depth ++ name ++ [' ', '\x7b', '\n']
  | .closing => closingLine (depth - 1)
  | .blankLine => ['\n']

end Item

/-- Close all blocks that are open, the resource block last. -/
def writeEnd : Nat → Text
  | 0 => closingLine 0
  | 1 => closingLine 0
  | depth + 2 => closingLine (depth + 1) ++ writeEnd (depth + 1)

/-- Items and the end of the resource block, from a depth on. -/
def writeItems (depth : Nat) : List Item → Text
  | [] => writeEnd depth
  | item :: others =>
      item.write depth ++ writeItems (item.depthAfter depth) others

/-- A resource block of a type and a name. -/
def resourceBlock (kind name : Text) (items : List Item) : Text :=
  ("resource \"" : Text) ++ kind ++ ("\" \"" : Text) ++ name ++
    ("\" \x7b\n" : Text) ++ writeItems 1 items

end Snowform.Hcl
