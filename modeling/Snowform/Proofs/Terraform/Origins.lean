import Snowform.Proofs.Terraform.Permutation
import Snowform.Proofs.Terraform.Resources

/-!
# Where resources come from

A resource of a conversion is the one of an object, or it belongs to a
constraint of a table.  Its kind and its name tell which, and what it depends
on comes from the references of the object or the constraint.
-/

namespace Snowform.Terraform

open Text

/-! ## Resources of objects -/

/-- The resource of an object before dependencies are added. -/
def mainResource (policy : Policy) (objects : List DdlObject)
    (object : DdlObject) : Resource :=
  (Group.ofObject policy (bodySubstitution policy objects) object).main

/-- The kind of the resource of an object. -/
def objectResourceKind : DdlObject → ResourceKind
  | .table _ => .table
  | .view _ => .view
  | .procedure definition =>
      if definition.isJavascript then .javascriptProcedure else .procedure

theorem kind_mainResource (policy : Policy) (objects : List DdlObject)
    (object : DdlObject) :
    (mainResource policy objects object).kind = objectResourceKind object := by
  cases object with
  | table definition => rfl
  | view definition => rfl
  | procedure definition =>
      change (procedureResource policy _ definition).kind = _
      rw [procedureResource, objectResourceKind]
      split <;> rfl

/-- The resource of an object is named for the object. -/
theorem name_mainResource (policy : Policy) (objects : List DdlObject)
    (object : DdlObject) :
    (mainResource policy objects object).name =
      policy.resourceName object.name := by
  cases object with
  | table definition => rfl
  | view definition => rfl
  | procedure definition =>
      change (procedureResource policy _ definition).name = _
      rw [procedureResource]
      split <;> rfl

/-- The resource of an object is written without dependencies. -/
theorem dependencies_mainResource (policy : Policy)
    (objects : List DdlObject) (object : DdlObject) :
    (mainResource policy objects object).dependencies = [] := by
  cases object with
  | table definition => rfl
  | view definition => rfl
  | procedure definition =>
      change (procedureResource policy _ definition).dependencies = _
      rw [procedureResource]
      split <;> rfl

/-- The address that an object is found under. -/
def objectAddress (policy : Policy) (object : DdlObject) : Text :=
  (objectResourceKind object).address (policy.resourceName object.name)

/-- The resource of an object stands at the address of the object. -/
theorem address_mainResource (policy : Policy) (objects : List DdlObject)
    (object : DdlObject) :
    (mainResource policy objects object).address =
      objectAddress policy object := by
  rw [Resource.address, kind_mainResource, name_mainResource, objectAddress]

/-- References find an object by its name, its kind and its address. -/
def knownObject (policy : Policy) (object : DdlObject) : KnownObject where
  name := NormalName.ofName policy object.name
  kind := objectResourceKind object
  address := objectAddress policy object

/-- Every object is known, by its kind, its normal name and its resource. -/
theorem knownObjects_eq (policy : Policy) (objects : List DdlObject) :
    knownObjects policy objects = objects.map (knownObject policy) := by
  rw [knownObjects, groups, List.map_map]
  apply List.map_congr_left
  intro object _
  change Group.known policy _ = _
  rw [Group.known, Group.ofObject_object, knownObject,
    ← kind_mainResource policy objects, ← address_mainResource policy objects]
  rfl

/-! ## Resources of constraints -/

@[simp]
theorem kind_constraintResource (policy : Policy) (owner : QualifiedName)
    (constraint : Constraint) :
    (constraintResource policy owner constraint).kind = .tableConstraint := by
  rw [constraintResource, ← Resource.addDependencies_singleton,
    Resource.kind_addDependencies]
  rfl

/-- Constraints and tables have addresses of different ranks. -/
theorem dependencies_constraintResource (policy : Policy)
    (owner : QualifiedName) (constraint : Constraint) :
    (constraintResource policy owner constraint).dependencies =
      [ResourceKind.table.address (policy.resourceName owner)] := by
  rw [constraintResource, Resource.addDependency, if_neg]
  · rfl
  · intro same
    have ranks := congrArg addressRank (beq_iff_eq.mp same)
    rw [Resource.address, addressRank_address, addressRank_address] at ranks
    cases ranks

/-- A constraint starts out with the dependency on its table alone. -/
theorem isOrdered_constraintResource (policy : Policy)
    (owner : QualifiedName) (constraint : Constraint) :
    (constraintResource policy owner constraint).IsOrdered := by
  rw [constraintResource, ← Resource.addDependencies_singleton]
  exact (Resource.isOrdered_of_dependencies_eq_nil rfl).addDependencies _

/-- The resource of a constraint of a table among those of a conversion. -/
def finishedConstraint (policy : Policy) (objects : List DdlObject)
    (table : Table) (constraint : Constraint) : Resource :=
  (constraintResource policy table.name constraint).addDependencies
    (constraintTargets policy (knownObjects policy objects)
      (constraint.references.map (targetName table.name)))

/-! ## Resources of a conversion -/

/-- The resource of an object among those of a conversion. -/
def finishedMain (policy : Policy) (objects : List DdlObject)
    (object : DdlObject) : Resource :=
  (mainResource policy objects object).addDependencies
    (objectTargets policy (knownObjects policy objects) object)

theorem kind_finishedMain (policy : Policy) (objects : List DdlObject)
    (object : DdlObject) :
    (finishedMain policy objects object).kind = objectResourceKind object := by
  rw [finishedMain, Resource.kind_addDependencies, kind_mainResource]

theorem name_finishedMain (policy : Policy) (objects : List DdlObject)
    (object : DdlObject) :
    (finishedMain policy objects object).name =
      policy.resourceName object.name := by
  rw [finishedMain, Resource.name_addDependencies, name_mainResource]

/-- An object keeps its address when its dependencies are added. -/
theorem address_finishedMain (policy : Policy) (objects : List DdlObject)
    (object : DdlObject) :
    (finishedMain policy objects object).address =
      objectAddress policy object := by
  rw [finishedMain, Resource.address_addDependencies, address_mainResource]

theorem kind_finishedConstraint (policy : Policy) (objects : List DdlObject)
    (table : Table) (constraint : Constraint) :
    (finishedConstraint policy objects table constraint).kind =
      .tableConstraint := by
  rw [finishedConstraint, Resource.kind_addDependencies,
    kind_constraintResource]

/-- A constraint is named for its table and for itself. -/
theorem name_finishedConstraint (policy : Policy) (objects : List DdlObject)
    (table : Table) (constraint : Constraint) :
    (finishedConstraint policy objects table constraint).name =
      policy.resourceName table.name ++ '_' :: identifier constraint.name := by
  rw [finishedConstraint, Resource.name_addDependencies, constraintResource,
    ← Resource.addDependencies_singleton, Resource.name_addDependencies]
  rfl

/-- A table is written with its constraints behind it, all but the checks. -/
theorem objectResources_table (policy : Policy) (objects : List DdlObject)
    (table : Table) :
    objectResources policy objects (.table table) =
      finishedMain policy objects (.table table) ::
        (table.constraints.filter (·.kind != .check)).map
          (finishedConstraint policy objects table) := by
  simp [objectResources, Group.ofObject, finishedMain, mainResource,
    finishedConstraint, constraintResources]

theorem objectResources_view (policy : Policy) (objects : List DdlObject)
    (view : View) :
    objectResources policy objects (.view view) =
      [finishedMain policy objects (.view view)] := rfl

theorem objectResources_procedure (policy : Policy)
    (objects : List DdlObject) (procedure : Procedure) :
    objectResources policy objects (.procedure procedure) =
      [finishedMain policy objects (.procedure procedure)] := rfl

/-- A resource is the one of an object, or of a constraint of a table. -/
theorem mem_objectResources {policy : Policy} {objects : List DdlObject}
    {object : DdlObject} {resource : Resource} :
    resource ∈ objectResources policy objects object ↔
      resource = finishedMain policy objects object ∨
        ∃ table, object = .table table ∧
          ∃ constraint ∈ table.constraints, constraint.kind ≠ .check ∧
            resource = finishedConstraint policy objects table constraint := by
  cases object with
  | table definition =>
      rw [objectResources_table, List.mem_cons, List.mem_map]
      constructor
      · rintro (main | ⟨constraint, member, same⟩)
        · exact .inl main
        · obtain ⟨inside, noCheck⟩ := List.mem_filter.mp member
          exact .inr ⟨definition, rfl, constraint, inside,
            bne_iff_ne.mp noCheck, same.symm⟩
      · rintro (main | ⟨table, same, constraint, inside, noCheck, equal⟩)
        · exact .inl main
        · cases same
          exact .inr ⟨constraint,
            List.mem_filter.mpr ⟨inside, bne_iff_ne.mpr noCheck⟩, equal.symm⟩
  | view definition => simp [objectResources_view]
  | procedure definition => simp [objectResources_procedure]

/-- Every resource that is written belongs to one of the objects. -/
theorem mem_synthesize {policy : Policy} {objects : List DdlObject}
    {resource : Resource} :
    resource ∈ synthesize policy objects ↔
      ∃ object ∈ objects,
        resource ∈ objectResources policy objects object := by
  rw [synthesize_eq_flatMap, List.mem_flatMap]

end Snowform.Terraform
