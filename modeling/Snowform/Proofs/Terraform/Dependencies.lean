import Snowform.Proofs.Terraform.Items
import Snowform.Proofs.Terraform.Origins

/-!
# Dependencies of a conversion

Procedures and constraints depend on nothing but objects of their conversion.
A view may also depend on what is told from a name alone.  Tables depend on
nothing, and nothing depends on a constraint or on itself.

Whatever the references of an object lead to, its resource lists them in
order, and the list is the one section of its block.
-/

namespace Snowform.Terraform

open Text Hcl

/-! ## Targets -/

@[simp]
theorem mem_distinct {list : List Text} {element : Text} :
    element ∈ distinct list ↔ element ∈ list := by
  have grown : ∀ seen : List Text,
      element ∈ list.foldl (fun seen other =>
          if seen.contains other then seen else seen ++ [other]) seen ↔
        element ∈ seen ∨ element ∈ list := by
    induction list with
    | nil => simp
    | cons first others ih =>
        intro seen
        rw [List.foldl_cons, ih, List.mem_cons]
        by_cases known : first ∈ seen
        · rw [if_pos (List.contains_iff_mem.mpr known)]
          constructor
          · exact Or.imp_right Or.inr
          · rintro (here | rfl | later)
            exacts [.inl here, .inl known, .inr later]
        · rw [if_neg fun listed => known (List.contains_iff_mem.mp listed),
            List.mem_append, List.mem_singleton, or_assoc]
  simpa [distinct] using grown []

/-- An address of an object of a conversion. -/
def IsMainAddress (policy : Policy) (objects : List DdlObject)
    (target : Text) : Prop :=
  ∃ object ∈ objects, target = objectAddress policy object

section

variable {policy : Policy} {objects : List DdlObject}

/-- A known object is an object of the conversion. -/
theorem isMainAddress_of_find? {meets : KnownObject → Bool}
    {object : KnownObject}
    (found : (knownObjects policy objects).find? meets = some object) :
    IsMainAddress policy objects object.address := by
  have member := List.mem_of_find?_eq_some found
  rw [knownObjects_eq] at member
  obtain ⟨source, inside, rfl⟩ := List.mem_map.mp member
  exact ⟨source, inside, rfl⟩

/-- A procedure leads to objects of the conversion only. -/
theorem isMainAddress_of_mem_procedureTargets {procedure : Procedure}
    {target : Text}
    (member : target ∈ procedureTargets policy (knownObjects policy objects)
      procedure) :
    IsMainAddress policy objects target := by
  obtain ⟨reference, -, followed⟩ :=
    List.mem_filterMap.mp (mem_distinct.mp member)
  obtain ⟨object, found, rfl⟩ := Option.map_eq_some_iff.mp followed
  exact isMainAddress_of_find? found

/-- A constraint leads to objects of the conversion only. -/
theorem isMainAddress_of_mem_constraintTargets
    {referenced : Option QualifiedName} {target : Text}
    (member : target ∈ constraintTargets policy (knownObjects policy objects)
      referenced) :
    IsMainAddress policy objects target := by
  obtain ⟨name, -, followed⟩ :=
    Option.bind_eq_some_iff.mp (Option.mem_toList.mp member)
  obtain ⟨object, found, rfl⟩ := Option.map_eq_some_iff.mp followed
  exact isMainAddress_of_find? found

/-- Only views depend on what is not converted with them. -/
theorem isMainAddress_of_mem_objectTargets {object : DdlObject}
    (notView : object.kind ≠ .view) {target : Text}
    (member : target ∈ objectTargets policy (knownObjects policy objects)
      object) :
    IsMainAddress policy objects target := by
  cases object with
  | table definition => cases member
  | view definition => exact absurd rfl notView
  | procedure definition => exact isMainAddress_of_mem_procedureTargets member

/-! ## Addresses -/

/-- An address that no constraint could have. -/
def IsObjectAddress (target : Text) : Prop :=
  ∃ kind name, kind ≠ .tableConstraint ∧ IsIdentifierText name ∧
    target = ResourceKind.address kind name

/-- The address of an object can be listed on a line. -/
theorem IsObjectAddress.isListable {target : Text}
    (address : IsObjectAddress target) : IsListable target := by
  obtain ⟨kind, name, -, allowed, rfl⟩ := address
  exact isListable_address kind allowed

/-- No object is written as a constraint. -/
theorem objectResourceKind_ne (object : DdlObject) :
    objectResourceKind object ≠ .tableConstraint := by
  intro same
  cases object with
  | table definition => cases same
  | view definition => cases same
  | procedure definition =>
      rw [objectResourceKind] at same
      split at same <;> cases same

/-- An object of the conversion has the address of an object. -/
theorem IsMainAddress.isObjectAddress {target : Text}
    (main : IsMainAddress policy objects target) : IsObjectAddress target := by
  obtain ⟨object, -, rfl⟩ := main
  exact ⟨objectResourceKind object, policy.resourceName object.name,
    objectResourceKind_ne object,
    isIdentifierText_resourceName policy object.name, rfl⟩

/-- An address that is told from a name is one of an object. -/
theorem isObjectAddress_inferredAddress (view : View) (name : Text) :
    IsObjectAddress (inferredAddress policy view name) := by
  have allowed := isIdentifierText_resourceName policy
    { schema := view.name.schema, name := name }
  by_cases starts : viewNameStart.isPrefixOf name = true
  · exact ⟨.view, _, by decide, allowed,
      by rw [inferredAddress, if_pos starts]⟩
  · exact ⟨.table, _, by decide, allowed,
      by rw [inferredAddress, if_neg starts]⟩

/-- A view leads to addresses of objects, known or told from names. -/
theorem isObjectAddress_of_mem_viewTargets {view : View} {target : Text}
    (member : target ∈ viewTargets policy (knownObjects policy objects)
      view) :
    IsObjectAddress target := by
  obtain ⟨reference, -, followed⟩ :=
    List.mem_filterMap.mp (mem_distinct.mp member)
  rw [viewTarget?] at followed
  split_ifs at followed
  split at followed
  next object found =>
    cases followed
    exact (isMainAddress_of_find? found).isObjectAddress
  next =>
    cases followed
    exact isObjectAddress_inferredAddress view reference.name

/-- An object leads to addresses of objects. -/
theorem isObjectAddress_of_mem_objectTargets {object : DdlObject}
    {target : Text}
    (member : target ∈ objectTargets policy (knownObjects policy objects)
      object) :
    IsObjectAddress target := by
  cases object with
  | table definition => cases member
  | view definition => exact isObjectAddress_of_mem_viewTargets member
  | procedure definition =>
      exact (isMainAddress_of_mem_procedureTargets member).isObjectAddress

end

/-! ## Resources -/

/-- No text of an object looks like a section of dependencies. -/
theorem isPlain_mainResource (policy : Policy) (objects : List DdlObject)
    (object : DdlObject) : (mainResource policy objects object).IsPlain := by
  cases object with
  | table definition => exact isPlain_tableResource policy definition
  | view definition => exact isPlain_viewResource policy _ definition
  | procedure definition => exact isPlain_procedureResource policy _ definition

/--
A resource whose dependencies are in order and written in one section, where
all but a view depends on objects of the conversion.
-/
structure Resource.IsResolved (mains : List Text) (resource : Resource) : Prop
    extends resource.IsOrdered where
  table : resource.kind = .table → resource.dependencies = []
  closed : resource.kind ≠ .view →
    ∀ target ∈ resource.dependencies, target ∈ mains
  addresses : ∀ target ∈ resource.dependencies, IsObjectAddress target
  written : dependencySections resource.content =
    if resource.dependencies = [] then [] else [some resource.dependencies]

/-- Adding targets leaves a resource resolved if the targets may be added. -/
theorem Resource.IsPlain.isResolved_addDependencies {resource : Resource}
    (isPlain : resource.IsPlain) (isOrdered : resource.IsOrdered)
    {mains targets : List Text}
    (table : resource.kind = .table →
      resource.dependencies = [] ∧ targets = [])
    (closed : resource.kind ≠ .view →
      ∀ target ∈ resource.dependencies ++ targets, target ∈ mains)
    (addresses : ∀ target ∈ resource.dependencies ++ targets,
      IsObjectAddress target) :
    (resource.addDependencies targets).IsResolved mains := by
  have known : ∀ target ∈ (resource.addDependencies targets).dependencies,
      target ∈ resource.dependencies ++ targets := by
    intro target member
    rw [Resource.mem_dependencies_addDependencies] at member
    exact List.mem_append.mpr (member.imp_right And.left)
  have plain : (resource.addDependencies targets).IsPlain := by
    rwa [Resource.IsPlain, Resource.block_addDependencies]
  refine ⟨isOrdered.addDependencies targets, ?_, ?_, ?_, ?_⟩
  · intro kind
    rw [Resource.kind_addDependencies] at kind
    rw [(table kind).2]
    exact (table kind).1
  · intro kind target member
    rw [Resource.kind_addDependencies] at kind
    exact closed kind target (known target member)
  · exact fun target member => addresses target (known target member)
  · exact dependencySections_content plain fun target member =>
      (addresses target (known target member)).isListable

/-! ## Groups of resources -/

/-- The resources of an object: its own, and those of its constraints. -/
structure IsGroupOf (policy : Policy) (object : DdlObject) (main : Resource)
    (constraints : List Resource) : Prop where
  kind : main.kind = objectResourceKind object
  name : main.name = policy.resourceName object.name
  owned : ∀ constraint ∈ constraints,
    constraint.kind = .tableConstraint ∧ main.kind = .table ∧
      main.address ∈ constraint.dependencies

/-- The addresses of the resources that stand first in their groups. -/
def mainAddresses (groups : List (List Resource)) : List Text :=
  groups.filterMap fun group => group.head?.map (·.address)

section

variable (policy : Policy) (objects : List DdlObject)

/-- The first addresses of the groups are those of the objects. -/
theorem mem_mainAddresses {target : Text} :
    target ∈ mainAddresses (resourceGroups (additions policy objects)) ↔
      IsMainAddress policy objects target := by
  rw [mainAddresses, resourceGroups_additions, List.filterMap_map,
    List.mem_filterMap]
  constructor
  · rintro ⟨object, member, same⟩
    refine ⟨object, member, ?_⟩
    rw [← address_finishedMain policy objects object]
    exact (Option.some.inj same).symm
  · rintro ⟨object, member, rfl⟩
    refine ⟨object, member, ?_⟩
    rw [← address_finishedMain policy objects object]
    rfl

/-- The resources of an object are its own and those of its constraints. -/
theorem isGroupOf_objectResources (object : DdlObject) :
    ∃ main constraints,
      objectResources policy objects object = main :: constraints ∧
        IsGroupOf policy object main constraints := by
  have kind := kind_finishedMain policy objects object
  have name := name_finishedMain policy objects object
  cases object with
  | table definition =>
      refine ⟨_, _, objectResources_table policy objects definition,
        kind, name, ?_⟩
      intro resource member
      obtain ⟨constraint, -, rfl⟩ := List.mem_map.mp member
      refine ⟨kind_finishedConstraint policy objects definition constraint,
        kind, ?_⟩
      rw [address_finishedMain, finishedConstraint,
        Resource.mem_dependencies_addDependencies,
        dependencies_constraintResource]
      exact .inl (List.mem_singleton.mpr rfl)
  | view definition =>
      exact ⟨_, [], rfl, kind, name, List.forall_mem_nil _⟩
  | procedure definition =>
      exact ⟨_, [], rfl, kind, name, List.forall_mem_nil _⟩

/-- The resource of an object is resolved with what the object leads to. -/
theorem isResolved_finishedMain (object : DdlObject) :
    (finishedMain policy objects object).IsResolved
      (mainAddresses (resourceGroups (additions policy objects))) := by
  have none := dependencies_mainResource policy objects object
  refine (isPlain_mainResource policy objects
    object).isResolved_addDependencies
      (Resource.isOrdered_of_dependencies_eq_nil none) ?_ ?_ ?_
  · rw [kind_mainResource]
    intro kind
    refine ⟨none, ?_⟩
    cases object with
    | table definition => rfl
    | view definition => cases kind
    | procedure definition =>
        rw [objectResourceKind] at kind
        split at kind <;> cases kind
  · rw [kind_mainResource, none, List.nil_append]
    intro kind target member
    have notView : object.kind ≠ .view := by
      intro view
      cases object with
      | view definition => exact kind rfl
      | table definition => cases view
      | procedure definition => cases view
    exact (mem_mainAddresses policy objects).mpr
      (isMainAddress_of_mem_objectTargets notView member)
  · rw [none, List.nil_append]
    exact fun target => isObjectAddress_of_mem_objectTargets

/--
The resource of a constraint is resolved with what the constraint leads to.
-/
theorem isResolved_finishedConstraint {table : Table}
    (member : .table table ∈ objects) (constraint : Constraint) :
    (finishedConstraint policy objects table constraint).IsResolved
      (mainAddresses (resourceGroups (additions policy objects))) := by
  have owner : IsMainAddress policy objects
      (ResourceKind.table.address (policy.resourceName table.name)) :=
    ⟨.table table, member, rfl⟩
  have all : ∀ target ∈
      (constraintResource policy table.name constraint).dependencies ++
        constraintTargets policy (knownObjects policy objects)
          (constraint.references.map (targetName table.name)),
      IsMainAddress policy objects target := by
    rw [dependencies_constraintResource, List.singleton_append,
      List.forall_mem_cons]
    exact ⟨owner, fun target => isMainAddress_of_mem_constraintTargets⟩
  refine (isPlain_constraintResource policy table.name
    constraint).isResolved_addDependencies
      (isOrdered_constraintResource policy table.name constraint) ?_ ?_ ?_
  · rw [kind_constraintResource]
    intro kind
    cases kind
  · exact fun _ target inside =>
      (mem_mainAddresses policy objects).mpr (all target inside)
  · exact fun target inside => (all target inside).isObjectAddress

end

/--
Every object has a group of resources, and every resource of a constraint
depends on the table of its group.  No resource depends on itself, and tables
depend on nothing.  Procedures and constraints depend on nothing but the
resources that stand first in their groups.  Dependencies are ordered without
repetition and are what the one section of the resource lists.
-/
theorem dependencies_resolved (policy : Policy) (objects : List DdlObject) :
    let groups := resourceGroups (additions policy objects)
    List.Forall₂ (fun object group => ∃ main constraints,
        group = main :: constraints ∧
          IsGroupOf policy object main constraints) objects groups ∧
      ∀ resource ∈ synthesize policy objects,
        resource.IsResolved (mainAddresses groups) := by
  refine ⟨?_, ?_⟩
  · rw [resourceGroups_additions, List.forall₂_map_right_iff,
      List.forall₂_same]
    exact fun object _ => isGroupOf_objectResources policy objects object
  · intro resource member
    obtain ⟨object, inside, found⟩ := mem_synthesize.mp member
    rcases mem_objectResources.mp found with
      rfl | ⟨table, rfl, constraint, -, -, rfl⟩
    · exact isResolved_finishedMain policy objects object
    · exact isResolved_finishedConstraint policy objects inside constraint

end Snowform.Terraform
