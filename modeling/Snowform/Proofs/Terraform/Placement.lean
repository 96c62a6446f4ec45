import Snowform.Terraform.Placement
import Snowform.Proofs.Terraform.Dependencies

/-!
# Places of resources

While resources are made, every place that is kept is the one at which the
resource stands that it was kept for, since resources are only put behind
those that are there.  So what an object leads to is added to its own
resource, what a foreign key leads to is added to the resource of that very
constraint, and everything else about the resources stays as it was written.
-/

namespace Snowform.Terraform

open Text Hcl

/-! ## Places of groups -/

/-- The resources of a group as they are written. -/
def Group.written (group : Group) : List Resource :=
  group.main :: group.constraints.map (·.1)

/-- The foreign keys among constraints that are put from a place on. -/
def foreignKeysFrom (place : Nat) :
    List (Resource × Option QualifiedName) → List (Nat × QualifiedName)
  | [] => []
  | (_, target) :: others =>
      target.toList.map (fun name => (place, name)) ++
        foreignKeysFrom (place + 1) others

/-- The object of a group that is put from a place on. -/
def Group.placed (place : Nat) (group : Group) : Placed where
  object := group.object
  place := place
  foreignKeys := foreignKeysFrom (place + 1) group.constraints

/-- The objects of groups that are put from a place on. -/
def placedFrom (place : Nat) : List Group → List Placed
  | [] => []
  | group :: others =>
      group.placed place :: placedFrom (place + group.written.length) others

/-- Constraints stand one behind the other. -/
theorem foldl_placeConstraint
    (constraints : List (Resource × Option QualifiedName))
    (resources : List Resource) (foreignKeys : List (Nat × QualifiedName)) :
    constraints.foldl placeConstraint (resources, foreignKeys) =
      (resources ++ constraints.map (·.1),
        foreignKeys ++ foreignKeysFrom resources.length constraints) := by
  induction constraints generalizing resources foreignKeys with
  | nil => simp [foreignKeysFrom]
  | cons constraint others ih =>
      rw [List.foldl_cons, placeConstraint, ih, List.length_append,
        List.length_singleton, foreignKeysFrom, List.map_cons,
        List.append_assoc, List.append_assoc, List.singleton_append]

/-- An object puts its group behind the resources that are there. -/
theorem Placement.add_eq (policy : Policy) (substitution : Substitution)
    (placement : Placement) (object : DdlObject) :
    placement.add policy substitution object =
      let group := Group.ofObject policy substitution object
      { resources := placement.resources ++ group.written
        placed := placement.placed ++
          [group.placed placement.resources.length] } := by
  cases object with
  | table definition =>
      rw [Placement.add, foldl_placeConstraint]
      simp [Group.ofObject, Group.written, Group.placed]
  | view definition => rfl
  | procedure definition => rfl

theorem foldl_add (policy : Policy) (substitution : Substitution)
    (objects : List DdlObject) (placement : Placement) :
    objects.foldl (Placement.add policy substitution) placement =
      let groups := objects.map (Group.ofObject policy substitution)
      { resources := placement.resources ++ groups.flatMap Group.written
        placed := placement.placed ++
          placedFrom placement.resources.length groups } := by
  induction objects generalizing placement with
  | nil => simp [placedFrom]
  | cons object others ih =>
      rw [List.foldl_cons, ih, Placement.add_eq]
      simp [placedFrom]

theorem placement_eq (policy : Policy) (objects : List DdlObject) :
    placement policy objects =
      { resources := (groups policy objects).flatMap Group.written
        placed := placedFrom 0 (groups policy objects) } := by
  rw [placement, foldl_add, groups]
  simp

/-! ## What references find -/

/-- At the place kept for an object stands its own resource. -/
theorem filterMap_known (policy : Policy) (groups : List Group)
    (front : List Resource) :
    (placedFrom front.length groups).filterMap (fun entry =>
        (front ++ groups.flatMap Group.written)[entry.place]?.map
          fun resource =>
            { name := NormalName.ofName policy entry.object.name
              kind := resource.kind
              address := resource.address : KnownObject }) =
      groups.map (Group.known policy) := by
  induction groups generalizing front with
  | nil => rfl
  | cons group others ih =>
      have later := ih (front ++ group.written)
      rw [List.length_append, List.append_assoc, ← List.flatMap_cons] at later
      have here : (front ++ (group :: others).flatMap Group.written)[front.length]? =
          some group.main := by
        simp [Group.written]
      rw [placedFrom, List.filterMap_cons, later, List.map_cons]
      simp only [Group.placed, here]
      rfl

theorem known_placement (policy : Policy) (objects : List DdlObject) :
    (placement policy objects).known policy = knownObjects policy objects := by
  rw [placement_eq]
  exact filterMap_known policy (groups policy objects) []

/-! ## What is added -/

/-- What is added at a place is added to the resource that stands there. -/
theorem addAt_length (front back : List Resource) (resource : Resource)
    (targets : List Text) :
    addAt (front ++ resource :: back) (front.length, targets) =
      front ++ resource.addDependencies targets :: back := by
  cases targets with
  | nil => rfl
  | cons target others =>
      exact List.modifyTailIdx_add _ 0 front (resource :: back)

/-- The resource of a constraint with what its foreign key leads to. -/
def finishConstraint (policy : Policy) (known : List KnownObject)
    (constraint : Resource × Option QualifiedName) : Resource :=
  constraint.1.addDependencies (constraintTargets policy known constraint.2)

/-- The resources of a group with what its references lead to. -/
def Group.finished (policy : Policy) (known : List KnownObject)
    (group : Group) : List Resource :=
  group.main.addDependencies (objectTargets policy known group.object) ::
    group.constraints.map (finishConstraint policy known)

section

variable (policy : Policy) (known : List KnownObject)

/-- What a constraint leads to is added at its place, if there is something. -/
theorem foldl_addAt_constraint (front back : List Resource)
    (constraint : Resource × Option QualifiedName) :
    ((constraint.2.toList.map fun name => (front.length, name)).filterMap
        (pendingKey? policy known)).foldl addAt
          (front ++ constraint.1 :: back) =
      front ++ finishConstraint policy known constraint :: back := by
  obtain ⟨resource, target⟩ := constraint
  cases target with
  | none => rfl
  | some name =>
      rw [finishConstraint, constraintTargets, Option.bind_some,
        Option.toList_some, List.map_singleton, List.filterMap_cons,
        pendingKey?]
      cases tableTarget? policy known name with
      | none => rfl
      | some address => exact addAt_length front back resource [address]

/-- What a foreign key leads to is added to its own constraint. -/
theorem foldl_addAt_constraints
    (constraints : List (Resource × Option QualifiedName))
    (front back : List Resource) :
    ((foreignKeysFrom front.length constraints).filterMap
        (pendingKey? policy known)).foldl addAt
          (front ++ (constraints.map (·.1) ++ back)) =
      front ++ (constraints.map (finishConstraint policy known) ++ back) := by
  induction constraints generalizing front with
  | nil => rfl
  | cons constraint others ih =>
      have later := ih (front ++ [finishConstraint policy known constraint])
      rw [List.length_append, List.length_singleton, List.append_assoc,
        List.append_assoc] at later
      rw [foreignKeysFrom, List.filterMap_append, List.foldl_append,
        List.map_cons, List.cons_append, foldl_addAt_constraint]
      exact later

/-- What the references of a group lead to is added to its own resources. -/
theorem foldl_addAt_group (group : Group) (front back : List Resource) :
    ((group.placed front.length).pending policy known).foldl addAt
        (front ++ (group.written ++ back)) =
      front ++ (group.finished policy known ++ back) := by
  have main := addAt_length front (group.constraints.map (·.1) ++ back)
    group.main (objectTargets policy known group.object)
  have constraints := foldl_addAt_constraints policy known group.constraints
    (front ++ [group.main.addDependencies
      (objectTargets policy known group.object)]) back
  rw [List.length_append, List.length_singleton, List.append_assoc,
    List.append_assoc] at constraints
  rw [Placed.pending, Group.placed, List.foldl_cons, Group.written,
    List.cons_append, main]
  exact constraints

theorem foldl_addAt_groups (groups : List Group) (front : List Resource) :
    ((placedFrom front.length groups).flatMap
        (Placed.pending policy known)).foldl addAt
          (front ++ groups.flatMap Group.written) =
      front ++ groups.flatMap (Group.finished policy known) := by
  induction groups generalizing front with
  | nil => rfl
  | cons group others ih =>
      have later := ih (front ++ group.finished policy known)
      have size : (group.finished policy known).length =
          group.written.length := by
        simp [Group.finished, Group.written]
      rw [List.length_append, size, List.append_assoc,
        List.append_assoc] at later
      rw [placedFrom, List.flatMap_cons, List.flatMap_cons,
        List.foldl_append, foldl_addAt_group, later, List.flatMap_cons]

end

/-- Adding at the places that were kept is adding group by group. -/
theorem finished_placement (policy : Policy) (objects : List DdlObject) :
    (placement policy objects).finished policy = synthesize policy objects := by
  have each : ∀ group : Group,
      (group.additions policy (knownObjects policy objects)).map
          (fun addition => addition.1.addDependencies addition.2) =
        group.finished policy (knownObjects policy objects) := by
    intro group
    simp [Group.additions, Group.finished, finishConstraint]
  have added := foldl_addAt_groups policy (knownObjects policy objects)
    (groups policy objects) []
  rw [Placement.finished, known_placement, placement_eq]
  refine added.trans ?_
  rw [synthesize, resourceGroups, additions, List.map_map, ← List.flatMap,
    List.nil_append, ← funext each]
  rfl

/-! ## Resources as they were written -/

/-- A resource as it was written, with some targets added to it. -/
structure IsCompletion (written : Resource) (targets : List Text)
    (finished : Resource) : Prop where
  frame : finished = { written with dependencies := finished.dependencies }
  added : ∀ target, target ∈ finished.dependencies ↔
    target ∈ written.dependencies ∨
      target ∈ targets ∧ target ≠ written.address
  ordered : finished.IsOrdered
  content : withoutSection finished.content = written.block
  alone : finished.dependencies = [] → finished.content = written.block

theorem isCompletion_addDependencies {written : Resource}
    (isPlain : written.IsPlain) {targets mains : List Text}
    (resolved : (written.addDependencies targets).IsResolved mains) :
    IsCompletion written targets (written.addDependencies targets) := by
  have block := written.block_addDependencies targets
  refine ⟨?_, ?_, resolved.toIsOrdered, ?_, ?_⟩
  · rw [Resource.addDependencies_eq]
    rfl
  · intro target
    rw [Resource.mem_dependencies_addDependencies]
  · have plain : (written.addDependencies targets).IsPlain := by
      rwa [Resource.IsPlain, block]
    rw [withoutSection_content plain fun target member =>
      (resolved.addresses target member).isListable, block]
  · intro none
    rw [Resource.content, none, ← block]
    rfl

/-- The constraints of an object that are written, in order. -/
def writtenConstraints : DdlObject → List Constraint
  | .table definition => definition.constraints.filter (·.kind != .check)
  | .view _ => []
  | .procedure _ => []

/--
The resources of an object: its own with what the object leads to, then those
of its constraints, each with what that very constraint leads to.
-/
structure IsFinishedGroup (policy : Policy) (objects : List DdlObject)
    (object : DdlObject) (main : Resource) (constraints : List Resource) :
    Prop where
  main : IsCompletion (mainResource policy objects object)
    (objectTargets policy (knownObjects policy objects) object) main
  constraints : List.Forall₂ (fun constraint resource =>
      IsCompletion (constraintResource policy object.name constraint)
        (constraintTargets policy (knownObjects policy objects)
          (constraint.references.map (targetName object.name))) resource)
    (writtenConstraints object) constraints

theorem exists_isFinishedGroup {policy : Policy} {objects : List DdlObject}
    {object : DdlObject} (member : object ∈ objects) :
    ∃ main constraints,
      objectResources policy objects object = main :: constraints ∧
        IsFinishedGroup policy objects object main constraints := by
  have main := isCompletion_addDependencies
    (isPlain_mainResource policy objects object)
    (isResolved_finishedMain policy objects object)
  cases object with
  | table definition =>
      refine ⟨_, _, objectResources_table policy objects definition, main, ?_⟩
      rw [List.forall₂_map_right_iff]
      exact List.forall₂_same.mpr fun constraint _ =>
        isCompletion_addDependencies
          (isPlain_constraintResource policy definition.name constraint)
          (isResolved_finishedConstraint policy objects member constraint)
  | view definition => exact ⟨_, [], rfl, main, .nil⟩
  | procedure definition => exact ⟨_, [], rfl, main, .nil⟩

/--
The resources of a conversion are those of its objects in order, for each its
own and then those of its constraints that are no checks.  Every resource is
the one that was written but for its dependencies: these are its own and what
that very object or constraint leads to.  Without the section that lists them
it is the block that was written.  Adding them at places that were kept, in
one list, comes to the same.
-/
theorem synthesize_frames (policy : Policy) (objects : List DdlObject) :
    let groups := resourceGroups (additions policy objects)
    synthesize policy objects = groups.flatten ∧
      (placement policy objects).finished policy = groups.flatten ∧
      List.Forall₂ (fun object group => ∃ main constraints,
        group = main :: constraints ∧
          IsFinishedGroup policy objects object main constraints)
        objects groups := by
  refine ⟨rfl, finished_placement policy objects, ?_⟩
  rw [resourceGroups_additions, List.forall₂_map_right_iff, List.forall₂_same]
  exact fun object member => exists_isFinishedGroup member

end Snowform.Terraform
