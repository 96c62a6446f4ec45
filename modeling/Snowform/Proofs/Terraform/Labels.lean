import Snowform.Proofs.Ddl.Naming
import Snowform.Proofs.Terraform.Chains
import Snowform.Proofs.Terraform.Inference
import Snowform.Proofs.Terraform.Places

/-!
# Names in resources are identifiers

The configuration language takes a text for an identifier if it is not empty
and does not start with a digit.  The names of resources are such texts, and
so are the names of the resources that they depend on, however the names of
objects are written.

A schema that is written as an empty name is still referred to, and so is a
table that is.  Then the reference has no identifier between its dots.  There
is no other way to write an object, a schema or a constraint that leads to a
reference without an identifier.
-/

namespace Snowform.Terraform

open Text Hcl

/-! ## Labels -/

/--
An identifier of capitals, digits and underscores: its first character, which
is there, is no digit.
-/
structure IsLabel (text : Text) : Prop where
  starts : text.head?.any startsPart = true
  characters : IsIdentifierText text

theorem IsLabel.ne_nil {text : Text} (label : IsLabel text) : text ≠ [] := by
  rintro rfl
  cases label.starts

theorem isLabel_of_ne_nil {text : Text} (nonempty : text ≠ [])
    (characters : IsIdentifierText text)
    (noDigit : text.head?.any Char.isDigit = false) : IsLabel text := by
  refine ⟨?_, characters⟩
  cases text with
  | nil => exact absurd rfl nonempty
  | cons character rest =>
      have allowed := characters character List.mem_cons_self
      rw [List.head?_cons, Option.any_some] at noDigit ⊢
      simpa [isIdentifierCharacter, startsPart, noDigit] using allowed

theorem IsLabel.append {first second : Text} (label : IsLabel first)
    (characters : IsIdentifierText second) : IsLabel (first ++ second) := by
  refine ⟨?_, label.characters.append characters⟩
  rw [List.head?_append_of_ne_nil _ label.ne_nil]
  exact label.starts

/-- A name behind an underscore. -/
theorem isIdentifierText_underscore (name : Text) :
    IsIdentifierText ('_' :: identifier name) :=
  List.forall_mem_cons.mpr ⟨by decide, isIdentifierText_identifier name⟩

theorem isLabel_underscore (name : Text) :
    IsLabel ('_' :: identifier name) :=
  ⟨rfl, isIdentifierText_underscore name⟩

theorem identifier_eq_nil_iff (name : Text) :
    identifier name = [] ↔ name = [] := by
  constructor
  · intro empty
    rw [identifier] at empty
    split at empty
    next => cases empty
    next => exact List.map_eq_nil_iff.mp empty
  · rintro rfl
    rfl

/-- Any name but an empty one becomes a label. -/
theorem isLabel_identifier_iff {name : Text} :
    IsLabel (identifier name) ↔ name ≠ [] := by
  rw [ne_eq, ← identifier_eq_nil_iff]
  exact ⟨IsLabel.ne_nil, fun nonempty => isLabel_of_ne_nil nonempty
    (isIdentifierText_identifier name) (head?_identifier name)⟩

/-! ## Schemas -/

/-- Only a part at the end of a schema is left out, and never all of it. -/
theorem schemaIdentifier_starts (suffixes : List Text) (schema : Text) :
    schemaIdentifier suffixes schema <+: identifier schema ∧
      (schemaIdentifier suffixes schema = [] ↔ schema = []) := by
  rw [schemaIdentifier, ← identifier_eq_nil_iff schema]
  cases found : suffixes.findSome? fun suffix =>
      (dropEnd? (identifier suffix) (identifier schema)).filter
        (!·.isEmpty) with
  | none => exact ⟨List.prefix_rfl, Iff.rfl⟩
  | some stem =>
      obtain ⟨suffix, -, cut⟩ := List.exists_of_findSome?_eq_some found
      obtain ⟨dropped, filled⟩ := Option.filter_eq_some_iff.mp cut
      have starts : stem <+: identifier schema := by
        rw [dropEnd?] at dropped
        split at dropped
        next =>
          cases dropped
          exact List.take_prefix _ _
        next => cases dropped
      have nonempty : stem ≠ [] := by simpa using filled
      rw [Option.getD_some]
      refine ⟨starts, fun empty => absurd empty nonempty, fun empty => ?_⟩
      rw [empty] at starts
      exact List.prefix_nil.mp starts

section

variable (policy : Policy)

theorem isLabel_schema_iff (schema : Text) :
    IsLabel (policy.schema schema) ↔ schema ≠ [] := by
  obtain ⟨starts, empty⟩ :=
    schemaIdentifier_starts policy.schemaSuffixes schema
  rw [ne_eq, ← empty]
  refine ⟨IsLabel.ne_nil, fun nonempty => isLabel_of_ne_nil nonempty
    (isIdentifierText_schemaIdentifier _ _) ?_⟩
  obtain ⟨rest, whole⟩ := starts
  have first := head?_identifier schema
  rwa [← whole, List.head?_append_of_ne_nil _ nonempty] at first

/-! ## Names of resources -/

/-- The name of a resource is empty where nothing is there to name it. -/
theorem isLabel_resourceName_iff (name : QualifiedName) :
    IsLabel (policy.resourceName name) ↔
      name.name ≠ [] ∨ policy.schemaPrefix = true ∧ name.schema ≠ none := by
  rw [Policy.resourceName]
  cases name.schema with
  | none => simp [isLabel_identifier_iff]
  | some schema =>
      dsimp only
      split
      next prefixed =>
        refine iff_of_true ?_ (.inr ⟨prefixed, by simp⟩)
        by_cases empty : policy.schema schema = []
        · rw [empty]
          exact isLabel_underscore name.name
        · have label : IsLabel (policy.schema schema) :=
            (isLabel_schema_iff policy schema).mpr fun none =>
              empty ((schemaIdentifier_starts _ schema).2.mpr none)
          exact label.append (isIdentifierText_underscore name.name)
      next bare => simp [isLabel_identifier_iff, bare]

/-- The name of a resource is a label. -/
theorem isLabel_resourceName {name : QualifiedName} (named : name.name ≠ []) :
    IsLabel (policy.resourceName name) :=
  (isLabel_resourceName_iff policy name).mpr (.inl named)

end

/-! ## Addresses -/

/-- An address whose name is an identifier. -/
def IsLabelled (target : Text) : Prop :=
  ∃ kind name, IsLabel name ∧ target = ResourceKind.address kind name

section

variable {policy : Policy} {objects : List DdlObject}
  (named : ∀ object ∈ objects, object.name.name ≠ [])

include named

theorem isLabelled_of_isMainAddress {target : Text}
    (main : IsMainAddress policy objects target) : IsLabelled target := by
  obtain ⟨object, member, rfl⟩ := main
  exact ⟨_, _, isLabel_resourceName policy (named object member), rfl⟩

/-- References of a view have names, so what is told from them has, too. -/
theorem isLabelled_of_mem_viewTargets {view : View} {target : Text}
    (member : target ∈ viewTargets policy (knownObjects policy objects)
      view) :
    IsLabelled target := by
  obtain ⟨reference, mentioned, followed⟩ :=
    List.mem_filterMap.mp (mem_distinct.mp member)
  rw [viewTarget?] at followed
  split_ifs at followed
  split at followed
  next object found =>
    cases followed
    exact isLabelled_of_isMainAddress named (isMainAddress_of_find? found)
  next =>
    cases followed
    obtain ⟨chain, isChain, rfl⟩ := exists_chain_of_mem_references mentioned
    have nonempty : identifier (QualifiedName.ofText chain).name ≠ [] :=
      (identifier_eq_nil_iff _).not.mpr isChain.name_ofText_ne_nil
    exact ⟨_, _, isLabel_resourceName policy nonempty, rfl⟩

theorem isLabelled_of_mem_objectTargets {object : DdlObject} {target : Text}
    (member : target ∈ objectTargets policy (knownObjects policy objects)
      object) :
    IsLabelled target := by
  cases object with
  | table definition => cases member
  | view definition => exact isLabelled_of_mem_viewTargets named member
  | procedure definition =>
      exact isLabelled_of_isMainAddress named
        (isMainAddress_of_mem_procedureTargets member)

end

/-! ## Resources -/

/--
A resource that is named by an identifier, with all the schemas and all the
tables that its block refers to.
-/
structure IsWellNamed (policy : Policy) (resource : Resource)
    (schemas : List Text) (tables : List QualifiedName) : Prop where
  label : IsLabel resource.name
  starts :
    blockStart resource.kind.type resource.name ++ ['\n'] <+: resource.content
  dependencies : ∀ target ∈ resource.dependencies, IsLabelled target
  listed : dependencySections resource.content =
    if resource.dependencies = [] then [] else [some resource.dependencies]
  schemas_eq : valuesFor "schema" (outline resource.content) =
    schemas.map policy.schemaReference
  tables_eq : valuesFor "table_id" (outline resource.content) =
    tables.map fun name => tableReference (policy.resourceName name)

section

variable {policy : Policy} {objects : List DdlObject}
  (named : ∀ object ∈ objects, object.name.name ≠ [])

include named

/--
An object is written under a label, with its schema and no table in its block.
-/
theorem isWellNamed_finishedMain {object : DdlObject}
    (member : object ∈ objects) :
    IsWellNamed policy (finishedMain policy objects object)
      object.name.schema.toList [] where
  label := by
    rw [name_finishedMain]
    exact isLabel_resourceName policy (named object member)
  starts := by
    rw [kind_finishedMain, name_finishedMain]
    exact blockStart_prefix_content (block_finishedMain policy objects object)
  dependencies := by
    intro target inside
    rw [finishedMain, Resource.mem_dependencies_addDependencies,
      dependencies_mainResource] at inside
    rcases inside with none | ⟨added, -⟩
    · cases none
    · exact isLabelled_of_mem_objectTargets named added
  listed := (isResolved_finishedMain policy objects object).written
  schemas_eq := by
    rw [valuesFor_finishedMain, (writtenFor_objectParts policy object).1]
  tables_eq := by
    rw [valuesFor_finishedMain, (writtenFor_objectParts policy object).2]
    rfl

theorem isWellNamed_finishedConstraint {table : Table}
    (member : .table table ∈ objects) (constraint : Constraint) :
    IsWellNamed policy (finishedConstraint policy objects table constraint) []
      (table.name ::
        constraint.references.toList.map (targetName table.name)) where
  label := by
    rw [name_finishedConstraint]
    exact (isLabel_resourceName policy (named _ member)).append
      (isIdentifierText_underscore constraint.name)
  starts := by
    rw [kind_finishedConstraint, name_finishedConstraint]
    exact blockStart_prefix_content
      (block_finishedConstraint policy objects table constraint)
  dependencies := by
    intro target added
    rw [finishedConstraint, Resource.mem_dependencies_addDependencies,
      dependencies_constraintResource, List.mem_singleton] at added
    rcases added with rfl | ⟨followed, -⟩
    · exact ⟨_, _, isLabel_resourceName policy (named _ member), rfl⟩
    · exact isLabelled_of_isMainAddress named
        (isMainAddress_of_mem_constraintTargets followed)
  listed :=
    (isResolved_finishedConstraint policy objects member constraint).written
  schemas_eq := by
    rw [valuesFor_finishedConstraint policy objects table constraint
      (by decide), writtenFor_constraintParts_schema]
    rfl
  tables_eq := by
    rw [valuesFor_finishedConstraint policy objects table constraint
      (by decide),
      (writtenFor_constraintParts policy table.name constraint).2.2.1,
      List.map_cons, List.map_map]
    rfl

end

/-! ## Conversions -/

theorem name_ne_nil_of_ofScript {policy : Policy} {script : Text}
    {conversion : Conversion}
    (result : Conversion.ofScript policy script = .ok conversion) :
    ∀ object ∈ conversion.objects, object.name.name ≠ [] := by
  rw [Conversion.ofScript, bind_eq_ok_iff] at result
  obtain ⟨read, found, same⟩ := result
  cases same
  exact Script.namesObjects_of_read found

/--
Every resource of a conversion has an identifier for its name, and so have
the resources that it depends on.  The block of an object refers to its
schema, and the block of a constraint to its table and to the one it points
at.  A schema has no identifier exactly if its name is empty, and a table
exactly if its name is and no schema is written in front of it.
-/
theorem names_are_labels_unless_empty {policy : Policy} {script : Text}
    {conversion : Conversion}
    (result : Conversion.ofScript policy script = .ok conversion) :
    (∀ object ∈ conversion.objects, object.name.name ≠ []) ∧
      (∀ resource ∈ conversion.resources, ∃ object ∈ conversion.objects,
        IsWellNamed policy resource object.name.schema.toList [] ∨
          ∃ table, object = .table table ∧ ∃ constraint ∈ table.constraints,
            IsWellNamed policy resource [] (table.name ::
              constraint.references.toList.map (targetName table.name))) ∧
      (∀ schema, IsLabel (policy.schema schema) ↔ schema ≠ []) ∧
      ∀ name, IsLabel (policy.resourceName name) ↔
        name.name ≠ [] ∨ policy.schemaPrefix = true ∧ name.schema ≠ none := by
  have named := name_ne_nil_of_ofScript result
  refine ⟨named, ?_, isLabel_schema_iff policy, isLabel_resourceName_iff policy⟩
  rw [Conversion.resources_of_ofScript result]
  intro resource member
  obtain ⟨object, inside, found⟩ := mem_synthesize.mp member
  refine ⟨object, inside, ?_⟩
  rcases mem_objectResources.mp found with
    rfl | ⟨table, rfl, constraint, known, -, rfl⟩
  · exact .inl (isWellNamed_finishedMain named inside)
  · exact .inr ⟨table, rfl, constraint, known,
      isWellNamed_finishedConstraint named inside constraint⟩

/-- A script that spells names in several ways. -/
def mixedSpellings : Text :=
  "CREATE TABLE \"1é\".\"9 x\" (a INT, CONSTRAINT \"-\" UNIQUE (a)); " ++
    "CREATE VIEW db..v AS SELECT * FROM \"2\";"

/-- Names with digits in front and other letters become identifiers. -/
theorem names_are_labels_unless_empty_spellings :
    ∃ conversion, Conversion.ofScript {} mixedSpellings = .ok conversion ∧
      conversion.resources.map (·.name) =
        ["_1___9_X".toList, "_1___9_X__".toList, "_V".toList] ∧
      ∀ resource ∈ conversion.resources, IsLabel resource.name := by
  have converts : ((Conversion.ofScript {} mixedSpellings).toOption.map
      fun conversion => conversion.resources.map (·.name)) =
        some ["_1___9_X".toList, "_1___9_X__".toList, "_V".toList] := by
    decide +kernel
  obtain ⟨conversion, some, names⟩ := Option.map_eq_some_iff.mp converts
  have result : Conversion.ofScript {} mixedSpellings = .ok conversion := by
    cases whole : Conversion.ofScript {} mixedSpellings with
    | error fault =>
        rw [whole] at some
        cases some
    | ok other =>
        rw [whole] at some
        cases some
        rfl
  have labels := (names_are_labels_unless_empty result).2.1
  refine ⟨conversion, result, names, fun resource member => ?_⟩
  obtain ⟨object, -, main | ⟨table, -, constraint, -, named⟩⟩ :=
    labels resource member
  · exact main.label
  · exact named.label

/-- The values that the resources of a script give to a key. -/
def placeValues (key script : Text) : Option (List Text) :=
  (Conversion.ofScript {} script).toOption.map fun conversion =>
    conversion.resources.flatMap fun resource =>
      valuesFor key (outline resource.content)

/-- Empty names of a schema and of a table that is referred to. -/
theorem references_without_labels :
    placeValues "schema" "CREATE TABLE db..t (id INT);" =
        some ["snowflake_schema..name".toList] ∧
      placeValues "table_id" ("CREATE TABLE t (a INT, " ++
          "CONSTRAINT k FOREIGN KEY (a) REFERENCES \"\" (b));") =
        some ["snowflake_table.T.fully_qualified_name".toList,
          "snowflake_table..fully_qualified_name".toList] ∧
      ¬ IsLabel (Policy.schema {} []) ∧
      ¬ IsLabel (Policy.resourceName {} {}) := by
  refine ⟨by decide +kernel, by decide +kernel, ?_, ?_⟩
  · exact fun label => label.ne_nil rfl
  · exact fun label => label.ne_nil rfl

end Snowform.Terraform
