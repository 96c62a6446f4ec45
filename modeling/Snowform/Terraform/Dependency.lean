import Snowform.Terraform.Reference
import Snowform.Terraform.Writing

/-!
# Dependencies between resources

The resources of a conversion depend on each other where one object refers to
another.

* A view depends on what its query mentions in its own schema.  What is not
  converted with it is taken for a view or a table by its name.
* A procedure depends on the converted objects that its body mentions; the
  parts of a reference are the last parts of the object's name.
* A foreign key depends on the converted table that it points at.
-/

namespace Snowform.Terraform

open Text Lexical

/-- The resources of one object, before dependencies are added. -/
structure Group where
  object : DdlObject
  /-- The resource of the object itself. -/
  main : Resource
  /-- The resources of constraints, with the tables they point at. -/
  constraints : List (Resource × Option QualifiedName) := []

/-- An object of the conversion as references find it. -/
structure KnownObject where
  name : NormalName
  kind : ResourceKind
  address : Text

/-- What references find of an object. -/
def Group.known (policy : Policy) (group : Group) : KnownObject where
  name := NormalName.ofName policy group.object.name
  kind := group.main.kind
  address := group.main.address

/-- A list without the elements that occurred before. -/
def distinct (list : List Text) : List Text :=
  list.foldl (fun seen element =>
    if seen.contains element then seen else seen ++ [element]) []

/-! ## Views -/

/-- The names that are taken for views. -/
def viewNameStart : Text := "VW_"

/-- The address of an object in the schema of a view, told from its name. -/
def inferredAddress (policy : Policy) (view : View) (name : Text) : Text :=
  let kind : ResourceKind :=
    if viewNameStart.isPrefixOf name then .view else .table
  kind.address
    (policy.resourceName { schema := view.name.schema, name := name })

/-- The address that a reference of a view leads to, if it is followed. -/
def viewTarget? (policy : Policy) (known : List KnownObject)
    (view : View) (expressions : List Text) (reference : NormalName) :
    Option Text :=
  let own := view.name.schema.map policy.schema
  let schema := reference.schema.or own
  if reference.schema = none ∧ expressions.contains reference.name then
    none
  else if schema = own then
    match known.find? fun object =>
        object.name.name = reference.name ∧ object.name.schema = schema with
    | some object => some object.address
    | none => some (inferredAddress policy view reference.name)
  else
    none

/-- The addresses that the query of a view leads to. -/
def viewTargets (policy : Policy) (known : List KnownObject) (view : View) :
    List Text :=
  let query := upper (stripCommentsAndStrings view.query)
  let expressions := tableExpressions query
  distinct ((references policy ["FROM", "JOIN"] query).filterMap
    (viewTarget? policy known view expressions))

/-! ## Procedures -/

/-- The text of a body that is searched; JavaScript has SQL in strings. -/
def searchedBody (procedure : Procedure) : Text :=
  upper <|
    if procedure.isJavascript then
      stripComments procedure.body
    else
      stripCommentsAndStrings procedure.body

/-- The addresses that the body of a procedure leads to. -/
def procedureTargets (policy : Policy) (known : List KnownObject)
    (procedure : Procedure) : List Text :=
  let found :=
    references policy ["FROM", "UPDATE", "INTO"] (searchedBody procedure)
  distinct (found.filterMap fun reference =>
    (known.find? fun object =>
      reference.parts.isSuffixOf object.name.parts).map (·.address))

/-! ## Foreign keys -/

/-- The address of the converted table that a foreign key points at. -/
def tableTarget? (policy : Policy) (known : List KnownObject)
    (target : QualifiedName) : Option Text :=
  let name := identifier target.name
  let schema := target.schema.map policy.schema
  (known.find? fun object =>
    object.kind = .table ∧ object.name.name = name ∧
      object.name.schema = schema).map (·.address)

/-! ## Groups -/

/-- The addresses that an object leads to. -/
def objectTargets (policy : Policy) (known : List KnownObject) :
    DdlObject → List Text
  | .table _ => []
  | .view definition => viewTargets policy known definition
  | .procedure definition => procedureTargets policy known definition

/-- The addresses that a constraint leads to. -/
def constraintTargets (policy : Policy) (known : List KnownObject)
    (target : Option QualifiedName) : List Text :=
  (target.bind (tableTarget? policy known)).toList

/-- A resource with the addresses that are added to its dependencies. -/
abbrev Addition := Resource × List Text

/-- The resources of a group with what is added to each of them. -/
def Group.additions (policy : Policy) (known : List KnownObject)
    (group : Group) : List Addition :=
  (group.main, objectTargets policy known group.object) ::
    group.constraints.map fun (resource, target) =>
      (resource, constraintTargets policy known target)

/-- The note about dependencies that are added to a resource. -/
def additionNotes (addition : Addition) : List Note :=
  if addition.2.isEmpty then
    []
  else
    [.dependencies addition.1.address addition.2]

end Snowform.Terraform
