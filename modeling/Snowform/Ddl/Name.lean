import Snowform.Text.Blank

/-!
# Names of objects

An identifier may be written between double quotes, with a quote inside it
written twice.  A qualified name is up to three identifiers joined by dots:
database, schema and name.  Dots between double quotes separate nothing.
-/

namespace Snowform

open Text

/-- The identifier that a text writes, without its quotes. -/
def unquote (written : Text) : Text :=
  let trimmed := trim written
  if 2 ≤ trimmed.length ∧ trimmed.head? = some '"' ∧
      trimmed.getLast? = some '"' then
    replaceAll "\"\"" "\"" (trimmed.drop 1).dropLast
  else
    trimmed.filter fun character => character != '"' && character != '\x60'

/-- A name with the schema and the database that were written before it. -/
structure QualifiedName where
  database : Option Text := none
  schema : Option Text := none
  name : Text := []
  deriving DecidableEq, Inhabited

namespace QualifiedName

/-- Cut a text at the dots that stand outside double quotes. -/
def dotted (text : Text) : List Text :=
  pieces (fun quoted character => !quoted && character == '.')
    (fun quoted character => quoted != (character == '"')) false text

/-- The name that a text writes; of more than three parts the last count. -/
def ofText (text : Text) : QualifiedName :=
  match ((dotted (trim text)).map unquote).reverse with
  | [] => { name := [] }
  | [name] => { name := name }
  | [name, schema] => { schema := some schema, name := name }
  | name :: schema :: database :: _ =>
      { database := some database, schema := some schema, name := name }

/-- The parts that were written, joined by dots. -/
def fullName (name : QualifiedName) : Text :=
  match name.database, name.schema with
  | some database, some schema =>
      database ++ '.' :: schema ++ '.' :: name.name
  | some database, none => database ++ '.' :: '.' :: name.name
  | none, some schema => schema ++ '.' :: name.name
  | none, none => name.name

end QualifiedName

end Snowform
