import Snowform.Proofs.Terraform.Contents
import Snowform.Proofs.Terraform.Placement

/-!
# Foreign keys lead to the tables that they name

The table of a foreign key is named twice: in the block of the constraint,
where its name is computed from what the script says, and among the
dependencies, where the table is looked up among the objects of the
conversion.  Whenever the look-up finds a table, both are the same.

The look-up compares the parts that the name of a resource is made of, so
that the table found has the name computed, whatever the spelling.
-/

namespace Snowform.Hcl

/-- What an outline says inside the first block with a name. -/
def insideBlock (name : Text) (items : List Item) : List Item :=
  ((items.dropWhile (· != .opening name)).drop 1).takeWhile (· != .closing)

/-- A block is read from its opening to the next closing. -/
theorem insideBlock_append {name : Text} {before inside : List Item}
    (early : Item.opening name ∉ before) (flat : Item.closing ∉ inside)
    (after : List Item) :
    insideBlock name
        (before ++ .opening name :: (inside ++ .closing :: after)) =
      inside := by
  have passed : ∀ item ∈ before, (item != .opening name) = true := by
    rintro item member
    exact bne_iff_ne.mpr fun same => early (same ▸ member)
  have kept : ∀ item ∈ inside, (item != .closing) = true := by
    rintro item member
    exact bne_iff_ne.mpr fun same => flat (same ▸ member)
  rw [insideBlock, List.dropWhile_append_of_pos passed,
    List.dropWhile_cons_of_neg (by simp), List.drop_one, List.tail_cons,
    List.takeWhile_append_of_pos kept, List.takeWhile_cons_of_neg (by simp),
    List.append_nil]

end Snowform.Hcl

namespace Snowform.Terraform

open Text Hcl

/-! ## The table that is found -/

/-- The parts of a name that resources are named after. -/
theorem resourceName_eq_of_parts {policy : Policy}
    {first second : QualifiedName}
    (names : identifier first.name = identifier second.name)
    (schemas : first.schema.map policy.schema =
      second.schema.map policy.schema) :
    policy.resourceName first = policy.resourceName second := by
  rw [Policy.resourceName, Policy.resourceName, names]
  cases one : first.schema with
  | none =>
      cases other : second.schema with
      | none => rfl
      | some schema =>
          rw [one, other] at schemas
          cases schemas
  | some schema =>
      cases other : second.schema with
      | none =>
          rw [one, other] at schemas
          cases schemas
      | some another =>
          rw [one, other] at schemas
          dsimp only
          rw [Option.some.inj schemas]

section

variable {policy : Policy} {objects : List DdlObject}

/-- What a foreign key leads to is a table with the name that is computed. -/
theorem exists_table_of_tableTarget? {target : QualifiedName} {address : Text}
    (found : tableTarget? policy (knownObjects policy objects) target =
      some address) :
    ∃ table, .table table ∈ objects ∧
      address = objectAddress policy (.table table) ∧
      policy.resourceName table.name = policy.resourceName target := by
  obtain ⟨known, first, rfl⟩ := Option.map_eq_some_iff.mp found
  have meets := List.find?_some first
  have member := List.mem_of_find?_eq_some first
  rw [knownObjects_eq, List.mem_map] at member
  obtain ⟨object, declared, rfl⟩ := member
  obtain ⟨kind, names, schemas⟩ := of_decide_eq_true meets
  cases object with
  | table definition =>
      exact ⟨definition, declared, rfl, resourceName_eq_of_parts names schemas⟩
  | view definition => cases kind
  | procedure definition =>
      change objectResourceKind (.procedure definition) = .table at kind
      rw [objectResourceKind] at kind
      split at kind <;> cases kind

/-! ## The table that is written -/

/-- What the block of a reference says. -/
def referenceItems (policy : Policy) (owner : QualifiedName)
    (target : ForeignKeyTarget) : List Item :=
  Item.raw "table_id"
      (tableReference (policy.resourceName (targetName owner target))) ::
    (targetColumns target).map (Item.raw "columns")

theorem outlined_targetItems (policy : Policy) (owner : QualifiedName)
    (target : ForeignKeyTarget) :
    (targetItems policy owner target).filterMap Item.outlined? =
      .opening "foreign_key_properties" :: .opening "references" ::
        (referenceItems policy owner target ++ [.closing, .closing]) := by
  rw [targetItems, referenceItems, targetColumns]
  split <;> rfl

/-- Nothing is opened in front of the reference of a constraint. -/
theorem insideBlock_constraintParts {owner : QualifiedName}
    {constraint : Constraint} {target : ForeignKeyTarget}
    (refers : constraint.references = some target) (after : List Item) :
    insideBlock "references"
        ((constraintParts policy owner constraint).filterMap Item.outlined? ++
          after) =
      referenceItems policy owner target := by
  obtain ⟨front, parts, early⟩ : ∃ front,
      constraintParts policy owner constraint =
        front ++ targetItems policy owner target ∧
      Item.opening "references" ∉ front := by
    refine ⟨_, by rw [constraintParts, refers, Option.toList_some,
      List.flatMap_singleton], ?_⟩
    simp [optionalFlag]
  have before : Item.opening "references" ∉
      front.filterMap Item.outlined? ++
        [.opening "foreign_key_properties"] := by
    rw [List.mem_append, opening_mem_outlined, List.mem_singleton, not_or]
    exact ⟨early, by decide⟩
  have flat : Item.closing ∉ referenceItems policy owner target := by
    simp [referenceItems]
  have whole := insideBlock_append before flat (.closing :: after)
  rw [parts, List.filterMap_append, outlined_targetItems]
  simpa using whole

theorem references_finishedConstraint {table : Table}
    {constraint : Constraint} {target : ForeignKeyTarget}
    (refers : constraint.references = some target) :
    valuesFor "table_id" (insideBlock "references"
        (outline (finishedConstraint policy objects table constraint).content)) =
      [tableReference
        (policy.resourceName (targetName table.name target))] := by
  have noTable : valuesFor "table_id"
      ((targetColumns target).map (Item.raw "columns")) = [] := by
    rw [targetColumns]
    split <;> rfl
  rw [outline_finishedConstraint, insideBlock_constraintParts refers,
    referenceItems]
  change _ :: valuesFor "table_id" _ = _
  rw [noTable]

/-! ## Both of them -/

theorem mem_synthesize_finishedConstraint {table : Table}
    (declared : .table table ∈ objects) {constraint : Constraint}
    (written : constraint ∈ writtenConstraints (.table table)) :
    finishedConstraint policy objects table constraint ∈
      synthesize policy objects := by
  refine mem_synthesize.mpr ⟨.table table, declared, ?_⟩
  rw [objectResources_table]
  exact List.mem_cons_of_mem _ (List.mem_map_of_mem written)

/--
Where a foreign key leads to a table of the conversion, the reference in the
block of the constraint is the one to that very table, and the constraint
depends on that table and on its own one, and on nothing else.
-/
theorem foreign_key_names_found_table (policy : Policy)
    {objects : List DdlObject} {table : Table}
    (declared : .table table ∈ objects) {constraint : Constraint}
    (written : constraint ∈ writtenConstraints (.table table))
    {target : ForeignKeyTarget}
    (refers : constraint.references = some target) {address : Text}
    (found : tableTarget? policy (knownObjects policy objects)
      (targetName table.name target) = some address) :
    let resource := finishedConstraint policy objects table constraint
    resource ∈ synthesize policy objects ∧
      (∃ other, .table other ∈ objects ∧
        address = (finishedMain policy objects (.table other)).address) ∧
      valuesFor "table_id"
          (insideBlock "references" (outline resource.content)) =
        [address ++ (".fully_qualified_name" : Text)] ∧
      ∀ dependency, dependency ∈ resource.dependencies ↔
        dependency = (finishedMain policy objects (.table table)).address ∨
          dependency = address := by
  intro resource
  obtain ⟨other, member, rfl, named⟩ := exists_table_of_tableTarget? found
  refine ⟨mem_synthesize_finishedConstraint declared written,
    ⟨other, member, (address_finishedMain policy objects _).symm⟩, ?_, ?_⟩
  · rw [references_finishedConstraint refers, ← named]
    rfl
  · intro dependency
    have apart : objectAddress policy (.table other) ≠
        (constraintResource policy table.name constraint).address := by
      intro same
      have ranks := congrArg addressRank same
      rw [objectAddress, Resource.address, kind_constraintResource,
        addressRank_address, addressRank_address] at ranks
      cases ranks
    change dependency ∈
      (finishedConstraint policy objects table constraint).dependencies ↔ _
    rw [finishedConstraint, Resource.mem_dependencies_addDependencies,
      dependencies_constraintResource, List.mem_singleton, refers,
      Option.map_some, constraintTargets, Option.bind_some, found,
      Option.toList_some, List.mem_singleton, address_finishedMain]
    refine or_congr_right (and_iff_left_of_imp ?_)
    rintro rfl
    exact apart

end

/-- An order in a sandbox that refers to its buyer in another spelling. -/
def sandboxOrders : Table where
  name := .ofText "db.rdv_sandbox.\"open orders\""
  constraints :=
    [{ name := "fk"
       kind := .foreignKey
       columns := ["buyer"]
       references := some ⟨.ofText "People", ["id"]⟩ }]

/-- The buyer is found in the schema that the sandbox stands for. -/
theorem foreign_key_names_found_table_of_sandbox :
    let people : Table := { name := .ofText "RDV.PEOPLE" }
    let objects : List DdlObject := [.table sandboxOrders, .table people]
    ∃ constraint ∈ writtenConstraints (.table sandboxOrders),
      ∃ target, constraint.references = some target ∧
        tableTarget? {} (knownObjects {} objects)
            (targetName sandboxOrders.name target) =
          some "snowflake_table.RDV_PEOPLE" ∧
        valuesFor "table_id" (insideBlock "references" (outline
            (finishedConstraint {} objects sandboxOrders constraint).content)) =
          ["snowflake_table.RDV_PEOPLE.fully_qualified_name"] := by
  intro people objects
  have found : tableTarget? {} (knownObjects {} objects)
      (targetName sandboxOrders.name ⟨.ofText "People", ["id"]⟩) =
        some "snowflake_table.RDV_PEOPLE" := by
    decide +kernel
  refine ⟨_, List.mem_singleton.mpr rfl, _, rfl, found, ?_⟩
  exact (foreign_key_names_found_table {} List.mem_cons_self
    (List.mem_singleton.mpr rfl) rfl found).2.2.1

end Snowform.Terraform
