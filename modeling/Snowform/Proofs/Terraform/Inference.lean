import Snowform.Conversion
import Snowform.Proofs.Ddl.Reading
import Snowform.Proofs.Terraform.Identifiers
import Snowform.Proofs.Terraform.Origins

/-!
# Addresses told from names

What is not converted with a view is addressed by its name.  Where names tell
views from tables, the address that is told from a name is the one that a
converted object of this name has.  The dependencies of a view are then the
same whatever is converted with it, and files that are converted one by one
order their views as one script would.
-/

namespace Snowform

open Text Lexical Terraform

namespace Terraform

/-! ## Names that tell kinds -/

/--
There are only tables and views, and a name starts as names of views do
exactly where it belongs to a view.
-/
structure NamesTellKinds (objects : List DdlObject) : Prop where
  noProcedures : ∀ object ∈ objects, object.kind ≠ .procedure
  views : ∀ object ∈ objects, object.kind = .view ↔
    viewNameStart.isPrefixOf (identifier object.name.name) = true

theorem NamesTellKinds.of_subset {objects others : List DdlObject}
    (tell : NamesTellKinds objects) (subset : others ⊆ objects) :
    NamesTellKinds others where
  noProcedures := fun object member =>
    tell.noProcedures object (subset member)
  views := fun object member => tell.views object (subset member)

/-- The kind of resource that is told from a name. -/
def inferredKind (name : Text) : ResourceKind :=
  if viewNameStart.isPrefixOf name then .view else .table

theorem NamesTellKinds.objectResourceKind_eq {objects : List DdlObject}
    (tell : NamesTellKinds objects) {object : DdlObject}
    (member : object ∈ objects) :
    objectResourceKind object = inferredKind (identifier object.name.name) := by
  have named := tell.views object member
  rw [inferredKind]
  cases object with
  | table definition =>
      have notView : ¬ viewNameStart.isPrefixOf
          (identifier (DdlObject.table definition).name.name) = true := by
        intro starts
        cases named.mpr starts
      rw [if_neg notView]
      rfl
  | view definition =>
      rw [if_pos (named.mp rfl)]
      rfl
  | procedure definition => exact absurd rfl (tell.noProcedures _ member)

/-! ## References of a view -/

/-- A converted object in the schema of a view has the address told for it. -/
theorem address_eq_inferredAddress {policy : Policy}
    {objects : List DdlObject} (tell : NamesTellKinds objects) {view : View}
    {object : KnownObject} (member : object ∈ knownObjects policy objects)
    (own : object.name.schema = view.name.schema.map policy.schema) :
    object.address = inferredAddress policy view object.name.name := by
  rw [knownObjects_eq] at member
  obtain ⟨source, inside, rfl⟩ := List.mem_map.mp member
  have sameName : policy.resourceName source.name =
      policy.resourceName
        { schema := view.name.schema, name := identifier source.name.name } :=
    resourceName_congr policy own (identifier_identifier _).symm
  rw [knownObject, objectAddress, tell.objectResourceKind_eq inside, sameName]
  rfl

theorem viewTarget?_eq_inferred {policy : Policy}
    {objects : List DdlObject} (tell : NamesTellKinds objects) (view : View)
    (expressions : List Text) :
    viewTarget? policy (knownObjects policy objects) view expressions =
      viewTarget? policy [] view expressions := by
  funext reference
  rw [viewTarget?, viewTarget?, List.find?_nil]
  split_ifs with expression own
  · rfl
  · split
    next object found =>
      have met := List.find?_some found
      simp only [decide_eq_true_eq] at met
      rw [address_eq_inferredAddress tell (List.mem_of_find?_eq_some found)
        (met.2.trans own), met.1]
    next => rfl
  · rfl

theorem viewTargets_eq_inferred {policy : Policy}
    {objects : List DdlObject} (tell : NamesTellKinds objects)
    (view : View) :
    viewTargets policy (knownObjects policy objects) view =
      viewTargets policy [] view := by
  simp only [viewTargets, viewTarget?_eq_inferred tell]

/-! ## Resources of views -/

/-- The dependencies of a view that nothing is converted with. -/
def loneDependencies (policy : Policy) (view : View) : List Text :=
  (finishedMain policy [] (.view view)).dependencies

/-- A view depends on the same resources, whatever is converted with it. -/
theorem dependencies_view {policy : Policy} {objects : List DdlObject}
    (tell : NamesTellKinds objects) (view : View) :
    (finishedMain policy objects (.view view)).dependencies =
      loneDependencies policy view := by
  rw [loneDependencies, finishedMain, finishedMain,
    Resource.dependencies_addDependencies,
    Resource.dependencies_addDependencies, dependencies_mainResource,
    dependencies_mainResource, Resource.extended, Resource.extended,
    address_mainResource, address_mainResource, objectTargets, objectTargets,
    viewTargets_eq_inferred tell]
  rfl

/-- The views among resources with their dependencies. -/
def viewOrder (resources : List Resource) : List (Text × List Text) :=
  (resources.filter (·.kind = .view)).map fun resource =>
    (resource.address, resource.dependencies)

theorem viewOrder_flatMap {α : Type} (list : List α)
    (resources : α → List Resource) :
    viewOrder (list.flatMap resources) =
      list.flatMap fun element => viewOrder (resources element) := by
  simp [viewOrder, List.filter_flatMap, List.map_flatMap]

/-- What an object adds to the views of a conversion. -/
def loneOrder (policy : Policy) (object : DdlObject) :
    List (Text × List Text) :=
  match object with
  | .view definition =>
      [(objectAddress policy object, loneDependencies policy definition)]
  | _ => []

theorem viewOrder_objectResources {policy : Policy}
    {objects : List DdlObject} (tell : NamesTellKinds objects)
    {object : DdlObject} (member : object ∈ objects) :
    viewOrder (objectResources policy objects object) =
      loneOrder policy object := by
  cases object with
  | table definition =>
      have noView : (objectResources policy objects
          (.table definition)).filter (·.kind = .view) = [] := by
        apply List.filter_eq_nil_iff.mpr
        intro resource inside
        rcases mem_objectResources.mp inside with
          rfl | ⟨table, -, constraint, -, -, rfl⟩
        · simp [kind_finishedMain, objectResourceKind]
        · simp [kind_finishedConstraint]
      rw [viewOrder, noView]
      rfl
  | view definition =>
      rw [objectResources_view, viewOrder, List.filter_cons_of_pos]
      · rw [List.filter_nil, List.map_singleton, address_finishedMain,
          dependencies_view tell, loneOrder]
      · simp [kind_finishedMain, objectResourceKind]
  | procedure definition => exact absurd rfl (tell.noProcedures _ member)

theorem viewOrder_synthesize {policy : Policy} {objects : List DdlObject}
    (tell : NamesTellKinds objects) :
    viewOrder (synthesize policy objects) =
      objects.flatMap (loneOrder policy) := by
  rw [synthesize_eq_flatMap, viewOrder_flatMap]
  exact List.flatMap_congr fun object member =>
    viewOrder_objectResources tell member

end Terraform

namespace Conversion

theorem resources_of_ofScript {policy : Policy} {script : Text}
    {conversion : Conversion}
    (result : ofScript policy script = .ok conversion) :
    conversion.resources = synthesize policy conversion.objects := by
  rw [ofScript, bind_eq_ok_iff] at result
  obtain ⟨read, -, same⟩ := result
  cases same
  rfl

/-- Scripts that are converted one by one order their views as one does. -/
theorem viewOrder_scripts {policy : Policy} {scripts : List Text}
    {conversions : List Conversion}
    (apart : List.Forall₂ (fun script conversion =>
      ofScript policy script = .ok conversion) scripts conversions)
    (tell : NamesTellKinds (conversions.flatMap (·.objects))) :
    conversions.flatMap (fun conversion => viewOrder conversion.resources) =
      (conversions.flatMap (·.objects)).flatMap (loneOrder policy) := by
  induction apart with
  | nil => rfl
  | @cons script conversion scripts conversions result others ih =>
      rw [List.flatMap_cons] at tell
      have here : NamesTellKinds conversion.objects :=
        tell.of_subset (List.subset_append_left _ _)
      have later : NamesTellKinds (conversions.flatMap (·.objects)) :=
        tell.of_subset (List.subset_append_right _ _)
      rw [List.flatMap_cons, List.flatMap_cons, List.flatMap_append, ih later,
        resources_of_ofScript result, viewOrder_synthesize here]

end Conversion

namespace Terraform

/--
Where names tell kinds, a view has the same dependencies among any objects:
an object in its schema has the address that is told from its name.  So it
does not matter either how the scripts of a schema are divided.
-/
theorem view_order_told_from_names (policy : Policy) (view : View)
    {objects others : List DdlObject} (tell : NamesTellKinds objects)
    (tellOthers : NamesTellKinds others) {place otherPlace : Nat}
    (here : objects[place]? = some (.view view))
    (there : others[otherPlace]? = some (.view view)) :
    (∃ resource other : Resource,
      (resourceGroups (additions policy objects))[place]? =
          some [resource] ∧
        (resourceGroups (additions policy others))[otherPlace]? =
          some [other] ∧
        resource.address = other.address ∧
        resource.dependencies = other.dependencies) ∧
    (∀ object ∈ knownObjects policy objects,
      object.name.schema = view.name.schema.map policy.schema →
        object.address = inferredAddress policy view object.name.name) ∧
    ∀ scripts conversions script whole,
      List.Forall₂ (fun script conversion =>
        Conversion.ofScript policy script = .ok conversion)
        scripts conversions →
      Conversion.ofScript policy script = .ok whole →
      whole.objects = conversions.flatMap (·.objects) →
      NamesTellKinds whole.objects →
        viewOrder whole.resources = conversions.flatMap fun conversion =>
          viewOrder conversion.resources := by
  refine ⟨?_, ?_, ?_⟩
  · refine ⟨finishedMain policy objects (.view view),
      finishedMain policy others (.view view), ?_, ?_, ?_, ?_⟩
    · rw [resourceGroups_additions, List.getElem?_map, here]
      rfl
    · rw [resourceGroups_additions, List.getElem?_map, there]
      rfl
    · rw [address_finishedMain, address_finishedMain]
    · rw [dependencies_view tell, dependencies_view tellOthers]
  · intro object member own
    exact address_eq_inferredAddress tell member own
  · intro scripts conversions script whole apart result same tellWhole
    rw [Conversion.resources_of_ofScript result,
      viewOrder_synthesize tellWhole, same]
    rw [same] at tellWhole
    exact (Conversion.viewOrder_scripts apart tellWhole).symm

/-- A view of a table and of a view, one of them with a suffix. -/
def joiningView : View :=
  { name := .ofText "s.vw_open"
    query := "SELECT * FROM orders JOIN S_SANDBOX.vw_all ON 1 = 1;" }

/-- The view is converted with the table first, then with the other view. -/
theorem view_order_told_from_names_joiningView :
    let objects : List DdlObject :=
      [.table { name := .ofText "s.orders" }, .view joiningView]
    let others : List DdlObject :=
      [.view joiningView, .view { name := .ofText "s.vw_all" }]
    NamesTellKinds objects ∧ NamesTellKinds others ∧
      objects[1]? = some (.view joiningView) ∧
      others[0]? = some (.view joiningView) ∧
      (∃ resource other : Resource,
        (resourceGroups (additions {} objects))[1]? = some [resource] ∧
          (resourceGroups (additions {} others))[0]? = some [other] ∧
          resource.address = other.address ∧
          resource.dependencies = other.dependencies) ∧
      (finishedMain {} objects (.view joiningView)).dependencies =
        (["snowflake_table.S_ORDERS", "snowflake_view.S_VW_ALL"] :
          List Text) := by
  intro objects others
  have tell : NamesTellKinds objects := ⟨by decide, by decide⟩
  have tellOthers : NamesTellKinds others := ⟨by decide, by decide⟩
  have here : objects[1]? = some (.view joiningView) := rfl
  have there : others[0]? = some (.view joiningView) := rfl
  have alike :=
    view_order_told_from_names {} joiningView tell tellOthers here there
  exact ⟨tell, tellOthers, here, there, alike.1, by decide +kernel⟩

end Terraform

end Snowform
