import Snowform.Ddl.Name
import Snowform.Hcl.Block

/-!
# Names of resources

Objects are named in resources by identifiers of capitals, digits and
underscores.  Schemas lose the suffix of their environment, and a policy
decides whether a resource is named after its schema.
-/

namespace Snowform.Terraform

open Text

/-- What a conversion is told about names. -/
structure Policy where
  /-- Whether resources are named after their schema, too. -/
  schemaPrefix : Bool := true
  /-- Further names of databases that bodies may mention. -/
  databaseTokens : List Text := []
  /-- Suffixes of environments that schemas may end in. -/
  schemaSuffixes : List Text := ["_SANDBOX".toList]
  deriving DecidableEq

/-- The character of an identifier that stands for a character of a name. -/
def identifierCharacter (character : Char) : Char :=
  let capital := character.toUpper
  if capital.isUpper || capital.isDigit || capital == '_' then
    capital
  else
    '_'

/-- The identifier that stands for a name. -/
def identifier (name : Text) : Text :=
  let characters := name.map identifierCharacter
  if characters.head?.any Char.isDigit then
    '_' :: characters
  else
    characters

/--
The identifier of a schema without the first suffix that it ends in, unless
nothing would be left.
-/
def schemaIdentifier (suffixes : List Text) (schema : Text) : Text :=
  let whole := identifier schema
  (suffixes.findSome? fun suffix =>
    (dropEnd? (identifier suffix) whole).filter (!·.isEmpty)).getD whole

/-- The expression for the database of an object. -/
def databaseReference : Text := "local.databases[var.DATABASE]"

namespace Policy

def schema (policy : Policy) (schema : Text) : Text :=
  schemaIdentifier policy.schemaSuffixes schema

def resourceName (policy : Policy) (name : QualifiedName) : Text :=
  match name.schema with
  | some schema =>
      if policy.schemaPrefix then
        policy.schema schema ++ '_' :: identifier name.name
      else
        identifier name.name
  | none => identifier name.name

/-- The expression for the schema of an object. -/
def schemaReference (policy : Policy) (schema : Text) : Text :=
  ("snowflake_schema." : Text) ++ policy.schema schema ++ (".name" : Text)

/-- The attributes that say where an object lives. -/
def location (policy : Policy) (name : QualifiedName) : List Hcl.Item :=
  [Hcl.Item.text "name" name.name] ++
    (name.database.toList.map fun _ =>
      Hcl.Item.raw "database" databaseReference) ++
    (name.schema.toList.map fun schema =>
      Hcl.Item.raw "schema" (policy.schemaReference schema))

end Policy

end Snowform.Terraform
