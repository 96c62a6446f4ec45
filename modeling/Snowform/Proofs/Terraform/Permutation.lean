import Snowform.Terraform.Synthesis
import Snowform.Proofs.Terraform.Substitution
import Mathlib.Data.List.Find
import Mathlib.Data.List.Nodup

/-!
# Objects in another order

Where objects are declared does not matter, as long as their identifiers
differ: every object has the same resources, which stand where the object
stands.

A substitution depends on the databases alone, and what a reference is
looked up by fixes the identifier of what is found, so that no look-up has a
choice.
-/

namespace Snowform.Terraform

open Text

/-! ## Looking up a name -/

/-- A reference that ends a name has the last part of the name. -/
theorem NormalName.name_eq_of_isSuffixOf {reference name : NormalName}
    (ends : reference.parts.isSuffixOf name.parts = true) :
    name.name = reference.name := by
  obtain ⟨front, whole⟩ := List.isSuffixOf_iff_suffix.mp ends
  have last := congrArg List.getLast? whole
  simpa [NormalName.parts, eq_comm] using last

/-- A look-up that fixes the name has no choice among different names. -/
theorem find?_known_perm {first second : List KnownObject}
    (permuted : first.Perm second)
    (distinct : (first.map (·.name.name)).Nodup)
    {meets : KnownObject → Bool} {name : Text}
    (named : ∀ object, meets object = true → object.name.name = name) :
    first.find? meets = second.find? meets := by
  refine List.find?_eq_find?_of_perm permuted ?_
  rintro object ⟨member, found⟩ other ⟨otherMember, otherFound⟩
  exact List.inj_on_of_nodup_map distinct member otherMember
    ((named object found).trans (named other otherFound).symm)

section

variable (policy : Policy) {first second : List KnownObject}
  (permuted : first.Perm second)
  (distinct : (first.map (·.name.name)).Nodup)

include permuted distinct

/-- The object behind a view is found in any order of distinct names. -/
theorem viewTarget?_perm (view : View) (expressions : List Text) :
    viewTarget? policy first view expressions =
      viewTarget? policy second view expressions := by
  funext reference
  rw [viewTarget?, viewTarget?, find?_known_perm permuted distinct]
  intro object found
  exact (of_decide_eq_true found).1

/-- A view leads to the same objects in any order. -/
theorem viewTargets_perm (view : View) :
    viewTargets policy first view = viewTargets policy second view := by
  simp only [viewTargets, viewTarget?_perm policy permuted distinct]

/-- A procedure leads to the same objects in any order. -/
theorem procedureTargets_perm (procedure : Procedure) :
    procedureTargets policy first procedure =
      procedureTargets policy second procedure := by
  have alike : ∀ reference : NormalName,
      first.find? (fun object =>
          reference.parts.isSuffixOf object.name.parts) =
        second.find? fun object =>
          reference.parts.isSuffixOf object.name.parts := fun reference =>
    find?_known_perm permuted distinct fun _ =>
      NormalName.name_eq_of_isSuffixOf
  simp only [procedureTargets, alike]

theorem tableTarget?_perm :
    tableTarget? policy first = tableTarget? policy second := by
  funext target
  rw [tableTarget?, tableTarget?, find?_known_perm permuted distinct]
  intro object found
  exact (of_decide_eq_true found).2.1

/-- An object leads to the same objects in any order. -/
theorem objectTargets_perm :
    objectTargets policy first = objectTargets policy second := by
  funext object
  cases object with
  | table definition => rfl
  | view definition =>
      exact viewTargets_perm policy permuted distinct definition
  | procedure definition =>
      exact procedureTargets_perm policy permuted distinct definition

/-- A constraint leads to the same table in any order. -/
theorem constraintTargets_perm :
    constraintTargets policy first = constraintTargets policy second := by
  funext target
  rw [constraintTargets, constraintTargets,
    tableTarget?_perm policy permuted distinct]

end

/-! ## Resources of an object -/

/-- The objects of a conversion as references find them. -/
def knownObjects (policy : Policy) (objects : List DdlObject) :
    List KnownObject :=
  (groups policy objects).map (Group.known policy)

/--
The resources of an object among the objects of a conversion: its own first,
then those of its constraints.
-/
def objectResources (policy : Policy) (objects : List DdlObject)
    (object : DdlObject) : List Resource :=
  let group :=
    Group.ofObject policy (bodySubstitution policy objects) object
  let known := knownObjects policy objects
  group.main.addDependencies (objectTargets policy known object) ::
    group.constraints.map fun (resource, target) =>
      resource.addDependencies (constraintTargets policy known target)

@[simp]
theorem Group.ofObject_object (policy : Policy)
    (substitution : Substitution) (object : DdlObject) :
    (Group.ofObject policy substitution object).object = object := by
  cases object <;> rfl

/-- The resources of an object stand where the object stands. -/
theorem resourceGroups_additions (policy : Policy)
    (objects : List DdlObject) :
    resourceGroups (additions policy objects) =
      objects.map (objectResources policy objects) := by
  have each : ∀ object,
      (Group.additions policy (knownObjects policy objects)
          (Group.ofObject policy (bodySubstitution policy objects)
            object)).map
          (fun addition => addition.1.addDependencies addition.2) =
        objectResources policy objects object := by
    intro object
    simp [Group.additions, objectResources]
  rw [resourceGroups, additions, groups, List.map_map, List.map_map]
  exact List.map_congr_left fun object _ => each object

theorem synthesize_eq_flatMap (policy : Policy) (objects : List DdlObject) :
    synthesize policy objects =
      objects.flatMap (objectResources policy objects) := by
  rw [synthesize, resourceGroups_additions, List.flatMap]

/-- The known objects have the identifiers of the objects. -/
theorem map_name_knownObjects (policy : Policy) (objects : List DdlObject) :
    (knownObjects policy objects).map (·.name.name) =
      objects.map fun object => identifier object.name.name := by
  simp [knownObjects, groups, Group.known, NormalName.ofName,
    Function.comp_def]

/-! ## Objects in another order -/

/-- What is exchanged in bodies does not depend on the order of the objects. -/
theorem bodySubstitution_perm (policy : Policy)
    {first second : List DdlObject} (permuted : first.Perm second) :
    bodySubstitution policy first = bodySubstitution policy second :=
  Substitution.ofTokens_perm
    ((permuted.filterMap _).append_right policy.databaseTokens) _

/-- Objects in another order are known in that order. -/
theorem knownObjects_perm (policy : Policy)
    {first second : List DdlObject} (permuted : first.Perm second) :
    (knownObjects policy first).Perm (knownObjects policy second) := by
  rw [knownObjects, knownObjects, groups, groups,
    bodySubstitution_perm policy permuted]
  exact (permuted.map _).map _

/-- The resources of an object do not depend on the order of the others. -/
theorem objectResources_perm (policy : Policy)
    {first second : List DdlObject} (permuted : first.Perm second)
    (distinct :
      (first.map fun object => identifier object.name.name).Nodup) :
    objectResources policy first = objectResources policy second := by
  funext object
  have known := knownObjects_perm policy permuted
  rw [← map_name_knownObjects policy] at distinct
  rw [objectResources, objectResources, bodySubstitution_perm policy permuted,
    objectTargets_perm policy known distinct,
    constraintTargets_perm policy known distinct]

/--
Objects with identifiers of their own have the same resources in whatever
order they are declared, and the resources of one object stay together.
-/
theorem synthesize_perm (policy : Policy) {first second : List DdlObject}
    (permuted : first.Perm second)
    (distinct :
      (first.map fun object => identifier object.name.name).Nodup) :
    bodySubstitution policy first = bodySubstitution policy second ∧
      synthesize policy first =
        first.flatMap (objectResources policy first) ∧
      synthesize policy second =
        second.flatMap (objectResources policy first) := by
  refine ⟨bodySubstitution_perm policy permuted,
    synthesize_eq_flatMap policy first, ?_⟩
  rw [synthesize_eq_flatMap policy second,
    objectResources_perm policy permuted distinct]

/-- A table with a foreign key, the table that it points at, and a view. -/
def referringObjects : List DdlObject :=
  [.table
    { name := .ofText "db.s.orders"
      constraints :=
        [{ name := "fk"
           kind := .foreignKey
           columns := ["buyer"]
           references := some ⟨.ofText "s.people", ["id"]⟩ }] },
   .table { name := .ofText "db.s.people" },
   .view { name := .ofText "db.s.open", query := "SELECT * FROM orders;" }]

/-- What is declared behind its references is found as well as in front. -/
theorem synthesize_reverse_referringObjects :
    referringObjects.Perm referringObjects.reverse ∧
      (referringObjects.map fun object =>
        identifier object.name.name).Nodup ∧
      synthesize {} referringObjects.reverse =
        referringObjects.reverse.flatMap
          (objectResources {} referringObjects) ∧
      (synthesize {} referringObjects.reverse).map (·.dependencies) =
        ([["snowflake_table.S_ORDERS"], [], [],
          ["snowflake_table.S_ORDERS", "snowflake_table.S_PEOPLE"]] :
          List (List Text)) := by
  have permuted : referringObjects.Perm referringObjects.reverse :=
    (List.reverse_perm _).symm
  have distinct :
      (referringObjects.map fun object =>
        identifier object.name.name).Nodup := by
    decide
  refine ⟨permuted, distinct,
    (synthesize_perm {} permuted distinct).2.2, ?_⟩
  decide +kernel

end Snowform.Terraform
