import Snowform.Terraform.Synthesis

/-!
# Resources in one list

The resources of all objects stand in one list while they are made.  For every
object is kept at which place its own resource stands, and at which places the
constraints stand that point at other tables.  What references lead to is
gathered with the places it is meant for, and is added there at the end.
-/

namespace Snowform.Terraform

open Text

/-- An object with the places of its resources in the list of all. -/
structure Placed where
  object : DdlObject
  /-- The place of the resource of the object itself. -/
  place : Nat
  /-- The places of foreign keys, with the tables they point at. -/
  foreignKeys : List (Nat × QualifiedName) := []

/-- The resources that are made so far, and the objects they are made of. -/
structure Placement where
  resources : List Resource := []
  placed : List Placed := []

/-- Put the resource of a constraint behind those that are there. -/
def placeConstraint (state : List Resource × List (Nat × QualifiedName))
    (constraint : Resource × Option QualifiedName) :
    List Resource × List (Nat × QualifiedName) :=
  (state.1 ++ [constraint.1],
    state.2 ++ constraint.2.toList.map fun target => (state.1.length, target))

/-- Put the resources of an object behind those that are there. -/
def Placement.add (policy : Policy) (substitution : Substitution)
    (placement : Placement) (object : DdlObject) : Placement :=
  let place := placement.resources.length
  match object with
  | .table definition =>
      let (resources, foreignKeys) :=
        (constraintResources policy definition).foldl placeConstraint
          (placement.resources ++ [tableResource policy definition], [])
      { resources := resources
        placed := placement.placed ++ [⟨object, place, foreignKeys⟩] }
  | .view definition =>
      { resources :=
          placement.resources ++ [viewResource policy substitution definition]
        placed := placement.placed ++ [⟨object, place, []⟩] }
  | .procedure definition =>
      { resources := placement.resources ++
          [procedureResource policy substitution definition]
        placed := placement.placed ++ [⟨object, place, []⟩] }

/-- The resources of objects in one list, before dependencies are added. -/
def placement (policy : Policy) (objects : List DdlObject) : Placement :=
  objects.foldl (Placement.add policy (bodySubstitution policy objects)) {}

/-- What references find of the objects, looked up at their places. -/
def Placement.known (policy : Policy) (placement : Placement) :
    List KnownObject :=
  placement.placed.filterMap fun entry =>
    placement.resources[entry.place]?.map fun resource =>
      { name := NormalName.ofName policy entry.object.name
        kind := resource.kind
        address := resource.address }

/-- The address that a foreign key leads to, with the place it goes to. -/
def pendingKey? (policy : Policy) (known : List KnownObject)
    (foreignKey : Nat × QualifiedName) : Option (Nat × List Text) :=
  (tableTarget? policy known foreignKey.2).map fun address =>
    (foreignKey.1, [address])

/-- The addresses that an object leads to, with the places they go to. -/
def Placed.pending (policy : Policy) (known : List KnownObject)
    (entry : Placed) : List (Nat × List Text) :=
  (entry.place, objectTargets policy known entry.object) ::
    entry.foreignKeys.filterMap (pendingKey? policy known)

/-- Add addresses to the resource at a place, if there are any. -/
def addAt (resources : List Resource) (pending : Nat × List Text) :
    List Resource :=
  if pending.2.isEmpty then
    resources
  else
    resources.modify pending.1 (·.addDependencies pending.2)

/-- The resources of a placement with what all references lead to. -/
def Placement.finished (policy : Policy) (placement : Placement) :
    List Resource :=
  (placement.placed.flatMap
    (Placed.pending policy (placement.known policy))).foldl addAt
      placement.resources

end Snowform.Terraform
