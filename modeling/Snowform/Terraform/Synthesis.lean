import Snowform.Terraform.Dependency

/-!
# From objects to resources

Objects become resources in order, a table followed by its constraints.  Then
every resource gets the dependencies that the other objects call for.  The
document is the resources with an empty line between them.
-/

namespace Snowform.Terraform

open Text

/-- The substitution for the databases of objects and those of the policy. -/
def bodySubstitution (policy : Policy) (objects : List DdlObject) :
    Substitution :=
  Substitution.ofTokens
    (objects.filterMap (·.name.database) ++ policy.databaseTokens)
    policy.schemaSuffixes

/-- The resources of the constraints of a table, apart from checks. -/
def constraintResources (policy : Policy) (table : Table) :
    List (Resource × Option QualifiedName) :=
  (table.constraints.filter (·.kind != .check)).map fun constraint =>
    (constraintResource policy table.name constraint,
      constraint.references.map (targetName table.name))

def Group.ofObject (policy : Policy) (substitution : Substitution)
    (object : DdlObject) : Group :=
  match object with
  | .table definition =>
      { object := object
        main := tableResource policy definition
        constraints := constraintResources policy definition }
  | .view definition =>
      { object := object
        main := viewResource policy substitution definition }
  | .procedure definition =>
      { object := object
        main := procedureResource policy substitution definition }

/-- The resources of objects, one group for each. -/
def groups (policy : Policy) (objects : List DdlObject) : List Group :=
  objects.map (Group.ofObject policy (bodySubstitution policy objects))

/-- The resources of objects with what is added to each, group by group. -/
def additions (policy : Policy) (objects : List DdlObject) :
    List (List Addition) :=
  let groups := groups policy objects
  groups.map (Group.additions policy (groups.map (Group.known policy)))

/-- The resources with what is added to each, group by group. -/
def resourceGroups (additions : List (List Addition)) : List (List Resource) :=
  additions.map fun group =>
    group.map fun (resource, targets) => resource.addDependencies targets

def synthesize (policy : Policy) (objects : List DdlObject) :
    List Resource :=
  (resourceGroups (additions policy objects)).flatten

/-- The document that holds resources. -/
def render (resources : List Resource) : Text :=
  ['\n'].intercalate (resources.map (·.content))

/-! ## Notes -/

/-- The notes taken when an object is written. -/
def writingNotes : DdlObject → List Note
  | .table definition =>
      (if definition.columns.isEmpty then
        [Note.emptyTable definition.name.fullName]
      else
        []) ++
      (definition.constraints.filter (·.kind == .check)).map fun constraint =>
        Note.skippedCheck constraint.name definition.name.fullName
  | _ => []

/-- The notes about addresses that occurred before. -/
def duplicateNotes (seen : List Text) : List Text → List Note
  | [] => []
  | address :: others =>
      if seen.contains address then
        .duplicateResource address :: duplicateNotes seen others
      else
        duplicateNotes (address :: seen) others

/-- The notes taken when objects become resources with additions. -/
def synthesisNotes (objects : List DdlObject)
    (additions : List (List Addition)) : List Note :=
  objects.flatMap writingNotes ++
    duplicateNotes [] (additions.flatten.map fun addition =>
      addition.1.address) ++
    additions.flatten.flatMap additionNotes

end Snowform.Terraform
