import Snowform.Ddl.Script
import Snowform.Terraform.ColumnDefault
import Snowform.Terraform.ColumnType
import Snowform.Terraform.Resource
import Snowform.Terraform.Substitution

/-!
# Writing objects as resources

A table, a view and a procedure become one resource each, and every
constraint of a table but a check becomes a resource of its own, which
depends on the resource of the table.  A constraint also says which table it
points at, so that it can depend on that one, too.
-/

namespace Snowform.Terraform

open Text Hcl

/-- A resource whose block is made of items. -/
def Resource.ofItems (kind : ResourceKind) (name : Text) (items : List Item) :
    Resource where
  kind := kind
  name := name
  block := resourceBlock kind.type name items

/-- An attribute for a text that may be missing. -/
def optionalText (key : Text) (value : Option Text) : List Item :=
  value.toList.map (Item.text key)

/-- An attribute for a truth value that may be missing. -/
def optionalFlag (key : Text) (value : Option Bool) : List Item :=
  value.toList.map (Item.flag key)

/-- An attribute that is only written when it is true. -/
def flagIf (key : Text) (value : Bool) : List Item :=
  if value then [Item.flag key true] else []

/-- Items in a block of their own. -/
def nested (name : Text) (items : List Item) : List Item :=
  Item.opening name :: items ++ [Item.closing]

/-! ## Tables -/

def defaultItems (written : Text) : List Item :=
  let value := ColumnDefault.ofText written
  nested "default" [Item.raw value.key value.value]

def columnItems (column : Column) : List Item :=
  nested "column" <|
    [Item.text "name" column.name,
      Item.text "type" (columnType column.dataType)] ++
    (if column.nullable then [] else [Item.flag "nullable" false]) ++
    column.defaultValue.toList.flatMap defaultItems ++
    optionalText "comment" column.comment

def tableResource (policy : Policy) (table : Table) : Resource :=
  Resource.ofItems .table (policy.resourceName table.name) <|
    policy.location table.name ++
    optionalText "comment" table.comment ++
    table.clusterBy.toList.map (Item.texts "cluster_by") ++
    table.columns.flatMap columnItems

/-! ## Constraints -/

/-- The expression for the full name of a table. -/
def tableReference (resourceName : Text) : Text :=
  ResourceKind.table.address resourceName ++ (".fully_qualified_name" : Text)

/-- The name of a referenced table, in the schema of the owner by default. -/
def targetName (owner : QualifiedName) (target : ForeignKeyTarget) :
    QualifiedName :=
  { target.table with schema := target.table.schema.or owner.schema }

/-- The block that says what a foreign key points at. -/
def targetItems (policy : Policy) (owner : QualifiedName)
    (target : ForeignKeyTarget) : List Item :=
  nested "foreign_key_properties" <| nested "references" <|
    Item.raw "table_id"
      (tableReference (policy.resourceName (targetName owner target))) ::
    if target.columns.isEmpty then
      []
    else
      [Item.texts "columns" target.columns]

def constraintResource (policy : Policy) (owner : QualifiedName)
    (constraint : Constraint) : Resource :=
  let table := policy.resourceName owner
  let resource :=
    Resource.ofItems .tableConstraint
      (table ++ '_' :: identifier constraint.name) <|
    [Item.text "name" constraint.name,
      Item.text "type" constraint.kind.keyword,
      Item.raw "table_id" (tableReference table),
      Item.texts "columns" constraint.columns] ++
    optionalFlag "rely" constraint.flags.rely ++
    optionalFlag "enable" constraint.flags.enable ++
    optionalFlag "deferrable" constraint.flags.deferrable ++
    constraint.references.toList.flatMap (targetItems policy owner)
  resource.addDependency (ResourceKind.table.address table)

/-! ## Views -/

def viewColumnItems (name : Text) : List Item :=
  nested "column" [Item.text "column_name" name]

def viewResource (policy : Policy) (substitution : Substitution)
    (view : View) : Resource :=
  Resource.ofItems .view (policy.resourceName view.name) <|
    policy.location view.name ++
    optionalText "comment" view.comment ++
    flagIf "is_secure" view.secure ++
    flagIf "or_replace" view.orReplace ++
    (view.columns.getD []).flatMap viewColumnItems ++
    [Item.heredoc "statement" (substitution.apply view.query)]

/-! ## Procedures -/

structure ParameterKeys where
  block : Text
  name : Text
  dataType : Text
  defaultValue : Text

def parameterItems (keys : ParameterKeys) (parameter : Parameter) :
    List Item :=
  nested keys.block <|
    [Item.text keys.name parameter.name,
      Item.text keys.dataType parameter.dataType] ++
    optionalText keys.defaultValue parameter.defaultValue

/-- The keys of parameters in the resource of a procedure in SQL. -/
def argumentKeys : ParameterKeys :=
  ⟨"argument", "name", "type", "default_value"⟩

/-- The keys of parameters in the resource of a procedure in JavaScript. -/
def javascriptArgumentKeys : ParameterKeys :=
  ⟨"arguments", "arg_name", "arg_data_type", "arg_default_value"⟩

/-- The items of a procedure that is not written in JavaScript. -/
def procedureItems (policy : Policy) (substitution : Substitution)
    (procedure : Procedure) : List Item :=
  policy.location procedure.name ++
    [Item.text "language" (upper procedure.language)] ++
    optionalText "return_type" procedure.returnType ++
    optionalText "comment" procedure.comment ++
    procedure.parameters.flatMap (parameterItems argumentKeys) ++
    [Item.heredoc "statement" (substitution.apply procedure.body)]

/-- The items of a procedure that is written in JavaScript. -/
def javascriptItems (policy : Policy) (substitution : Substitution)
    (procedure : Procedure) : List Item :=
  policy.location procedure.name ++
    optionalText "return_type" procedure.returnType ++
    [Item.text "execute_as" (procedure.executeAs.getD .owner).keyword] ++
    optionalText "comment" procedure.comment ++
    procedure.parameters.flatMap (parameterItems javascriptArgumentKeys) ++
    [Item.heredoc "procedure_definition" (substitution.apply procedure.body)]

def procedureResource (policy : Policy) (substitution : Substitution)
    (procedure : Procedure) : Resource :=
  let name := policy.resourceName procedure.name
  if procedure.isJavascript then
    Resource.ofItems .javascriptProcedure name
      (javascriptItems policy substitution procedure)
  else
    Resource.ofItems .procedure name
      (procedureItems policy substitution procedure)

end Snowform.Terraform
