import Snowform.Proofs.Terraform.Inference
import Snowform.Proofs.Terraform.Mentions

/-!
# Views of a table

A view that selects from a table of its own schema depends on the resource of
that table and on nothing else, whatever is created in front of the two, if
the first object that has their schema and name is a table.  Objects are
looked up by name and not by kind, so the first one in the script is found.

The names are quoted, and the look-up goes by their capitals: a double quote
or a line feed in them, or a capital with another identifier, leads
elsewhere.
-/

namespace Snowform

open Text Lexical

namespace Terraform

/-! ## Looking up a table -/

/-- Whether a reference to a name in a schema leads to an object. -/
def answers (policy : Policy) (schema name : Text) (object : DdlObject) :
    Bool :=
  identifier object.name.name = identifier name ∧
    object.name.schema.map policy.schema = some (policy.schema schema)

section

variable (policy : Policy) {schema name : Text}

/-- What answers to a reference has the resource name of what it names. -/
theorem resourceName_of_answers {object : DdlObject}
    (found : answers policy schema name object = true) :
    policy.resourceName object.name =
      policy.resourceName { schema := some schema, name := name } := by
  have met := of_decide_eq_true found
  exact resourceName_congr policy met.2 met.1

theorem objectAddress_of_answers {object : DdlObject}
    (found : answers policy schema name object = true)
    (table : object.kind = .table) :
    objectAddress policy object =
      ResourceKind.table.address
        (policy.resourceName { schema := some schema, name := name }) := by
  have kind : objectResourceKind object = .table := by
    cases object with
    | table definition => rfl
    | view definition => cases table
    | procedure definition => cases table
  rw [objectAddress, kind, resourceName_of_answers policy found]

/-- The first object that answers, where a table answers at the latest. -/
theorem exists_find?_answers {objects : List DdlObject}
    (tableFirst : ∀ object,
      objects.find? (answers policy schema name) = some object →
        object.kind = .table)
    (others : List DdlObject) :
    ∃ object, (objects ++ .table (declaredTable schema name) ::
        others).find? (answers policy schema name) = some object ∧
      object.kind = .table := by
  rw [List.find?_append]
  -- What answers earlier is found instead of the table.
  cases found : objects.find? (answers policy schema name) with
  | some object => exact ⟨object, rfl, tableFirst object found⟩
  | none =>
      have own : answers policy schema name
          (.table (declaredTable schema name)) = true :=
        decide_eq_true ⟨rfl, rfl⟩
      refine ⟨.table (declaredTable schema name), ?_, rfl⟩
      rw [List.find?_cons_of_pos own]
      rfl

end

/-! ## Names that can be selected from -/

/-- Quoted names that are found again by their capitals. -/
structure IsSelectable (policy : Policy) (schema name : Text) : Prop where
  nonempty : schema ≠ [] ∧ name ≠ []
  noQuote : '"' ∉ schema ∧ '"' ∉ name
  noFeed : '\n' ∉ schema ∧ '\n' ∉ name
  schemaKept : policy.schema (upper schema) = policy.schema schema
  nameKept : identifier (upper name) = identifier name

/-- Names of ASCII characters have no other identifiers in capitals. -/
theorem identifier_upper_of_ascii {name : Text}
    (ascii : ∀ character ∈ name, character.toNat < 0x80) :
    identifier (upper name) = identifier name := by
  have capitals : upper name = name.map Char.toUpper := by
    rw [upper, ← List.flatMap_singleton' (name.map Char.toUpper),
      List.flatMap_map]
    apply List.flatMap_congr
    intro character member
    rw [capital, if_pos (ascii character member)]
  have same : (upper name).map identifierCharacter =
      name.map identifierCharacter := by
    rw [capitals, List.map_map]
    apply List.map_congr_left
    intro character member
    have all : ∀ code < 0x80, identifierCharacter (Char.ofNat code).toUpper =
        identifierCharacter (Char.ofNat code) := by
      set_option maxRecDepth 4000 in decide
    have here := all character.toNat (ascii character member)
    rwa [Char.ofNat_toNat] at here
  rw [identifier, identifier, same]

theorem IsSelectable.of_ascii {policy : Policy} {schema name : Text}
    (nonempty : schema ≠ [] ∧ name ≠ [])
    (noQuote : '"' ∉ schema ∧ '"' ∉ name)
    (noFeed : '\n' ∉ schema ∧ '\n' ∉ name)
    (ascii : ∀ character ∈ schema ++ name, character.toNat < 0x80) :
    IsSelectable policy schema name := by
  rw [List.forall_mem_append] at ascii
  have schemaKept : policy.schema (upper schema) = policy.schema schema := by
    simp only [Policy.schema, schemaIdentifier,
      identifier_upper_of_ascii ascii.1]
  exact ⟨nonempty, noQuote, noFeed, schemaKept,
    identifier_upper_of_ascii ascii.2⟩

/-! ## The targets of a selection -/

section

variable {policy : Policy} {schema name : Text}
  (selectable : IsSelectable policy schema name)

include selectable in
theorem viewTarget?_selection {objects : List DdlObject} {object : DdlObject}
    (found : objects.find? (answers policy schema name) = some object)
    (view : Text) (expressions : List Text) :
    viewTarget? policy (knownObjects policy objects)
        (declaredView schema view name) expressions
        (NormalName.ofName policy
          { schema := some (upper schema), name := upper name }) =
      some (objectAddress policy object) := by
  have known : (knownObjects policy objects).find? (fun known =>
      known.name.name = identifier name ∧
        known.name.schema = some (policy.schema schema)) =
          some (knownObject policy object) := by
    rw [knownObjects_eq, List.find?_map]
    exact congrArg (Option.map (knownObject policy)) found
  have own : (declaredView schema view name).name.schema.map policy.schema =
      some (policy.schema schema) := rfl
  simp only [viewTarget?, NormalName.ofName, Option.map_some,
    selectable.schemaKept, selectable.nameKept, own, Option.some_or,
    reduceCtorEq, false_and, if_false, if_true, known]
  rfl

include selectable in
theorem viewTargets_selection {objects : List DdlObject} {object : DdlObject}
    (found : objects.find? (answers policy schema name) = some object)
    (view : Text) :
    viewTargets policy (knownObjects policy objects)
        (declaredView schema view name) =
      [objectAddress policy object] := by
  have query : upper (stripCommentsAndStrings
      (declaredView schema view name).query) =
        selection (upper schema) (upper name) ++ [';'] := by
    rw [declaredView, stripCommentsAndStrings_selection,
      upper_selection selectable.noQuote]
  have capitals := references_selection policy
    ⟨not_quote_mem_upper selectable.noQuote.1,
      not_quote_mem_upper selectable.noQuote.2⟩
    ⟨upper_ne_nil selectable.nonempty.1, upper_ne_nil selectable.nonempty.2⟩
  have followed := viewTarget?_selection selectable found view
  unfold queryKeywords at capitals
  unfold viewTargets
  simp only [query, capitals, List.filterMap_cons, followed,
    List.filterMap_nil]
  rfl

/-! ## The resource of the view -/

include selectable in
/-- The view depends on the table, of whose rank its own address is not. -/
theorem dependencies_selection {objects : List DdlObject}
    {object : DdlObject}
    (found : objects.find? (answers policy schema name) = some object)
    (table : object.kind = .table) (view : Text) :
    (finishedMain policy objects
        (.view (declaredView schema view name))).dependencies =
      [ResourceKind.table.address
        (policy.resourceName { schema := some schema, name := name })] := by
  have answering : answers policy schema name object = true :=
    List.find?_some found
  have target := objectAddress_of_answers policy answering table
  have other : ResourceKind.table.address
      (policy.resourceName { schema := some schema, name := name }) ≠
        objectAddress policy (.view (declaredView schema view name)) := by
    intro same
    have ranks := congrArg addressRank same
    rw [objectAddress, addressRank_address, addressRank_address] at ranks
    cases ranks
  rw [finishedMain, Resource.dependencies_addDependencies,
    dependencies_mainResource, Resource.extended, address_mainResource,
    objectTargets, viewTargets_selection selectable found, target]
  simp only [List.filter_cons, bne_iff_ne.mpr other, if_true, List.filter_nil]
  rfl

end

/-- The resource of a view that stands last, and of a table before it. -/
theorem synthesize_table_view (policy : Policy) (objects : List DdlObject)
    (table : Table) (view : View) :
    let whole := objects ++ [.table table, .view view]
    ∃ earlier, synthesize policy whole =
        earlier ++ [finishedMain policy whole (.view view)] ∧
      finishedMain policy whole (.table table) ∈ earlier := by
  intro whole
  refine ⟨(objects ++ [DdlObject.table table]).flatMap
    (objectResources policy whole), ?_, ?_⟩
  · rw [synthesize_eq_flatMap, ← objectResources_view,
      ← List.flatMap_singleton (objectResources policy whole),
      ← List.flatMap_append, ← List.append_cons]
  · apply List.mem_flatMap.mpr
    exact ⟨.table table, List.mem_append_right _ (List.mem_singleton_self _),
      mem_objectResources.mpr (.inl rfl)⟩

end Terraform

/-! ## Scripts with a selection -/

/-- Statements, and behind them a table and a view that selects from it. -/
def selectionScript (before : List Text) (schema view name : Text) : Text :=
  ofStatements (before ++
    [tableStatement schema name, ' ' :: viewStatement schema view name])

theorem objects_selectionScript {schema view name : Text}
    (noFeed : '\n' ∉ schema ∧ '\n' ∉ view ∧ '\n' ∉ name)
    (nonempty : view ≠ [] ∧ name ≠ []) {before : List Text}
    {objects : List DdlObject}
    (create : List.Forall₂ Creates before objects) :
    (Script.read (selectionScript before schema view name)).map
        Script.objects =
      .ok (objects ++ [.table (declaredTable schema name),
        .view (declaredView schema view name)]) := by
  have table := creates_tableStatement ⟨noFeed.1, noFeed.2.2⟩ nonempty.2
  have view := creates_viewStatement ⟨noFeed.1, noFeed.2.1⟩ nonempty.1 name
  exact objects_ofStatements
    (List.rel_append create (.cons table (.cons view .nil)))

theorem Conversion.exists_ofScript (policy : Terraform.Policy) {text : Text}
    {objects : List DdlObject}
    (read : (Script.read text).map Script.objects = .ok objects) :
    ∃ conversion, Conversion.ofScript policy text = .ok conversion ∧
      conversion.objects = objects := by
  cases result : Script.read text with
  | error fault =>
      rw [result] at read
      cases read
  | ok script =>
      rw [result] at read
      rw [Conversion.ofScript, result]
      exact ⟨_, rfl, Except.ok.inj read⟩

namespace Terraform

/--
The view depends on the table and on nothing else if the first object that has
the schema and the name of the table is a table.  Its resource is the last
one, and that of the table is among those before it.
-/
theorem view_depends_on_selected_table (policy : Policy)
    {schema view name : Text} (selectable : IsSelectable policy schema name)
    (nonempty : view ≠ []) (noFeed : '\n' ∉ view) {before : List Text}
    {objects : List DdlObject}
    (create : List.Forall₂ Creates before objects)
    (tableFirst : ∀ object,
      objects.find? (answers policy schema name) = some object →
        object.kind = .table) :
    ∃ conversion earlier resource table,
      Conversion.ofScript policy (selectionScript before schema view name) =
          .ok conversion ∧
        conversion.objects = objects ++ [.table (declaredTable schema name),
          .view (declaredView schema view name)] ∧
        conversion.resources = earlier ++ [resource] ∧
        resource.kind = .view ∧
        resource.name =
          policy.resourceName { schema := some schema, name := view } ∧
        table ∈ earlier ∧ table.kind = .table ∧
        table.name =
          policy.resourceName { schema := some schema, name := name } ∧
        resource.dependencies = [table.address] := by
  obtain ⟨conversion, result, same⟩ := Conversion.exists_ofScript policy
    (objects_selectionScript
      ⟨selectable.noFeed.1, noFeed, selectable.noFeed.2⟩
      ⟨nonempty, selectable.nonempty.2⟩ create)
  obtain ⟨object, found, isTable⟩ := exists_find?_answers policy tableFirst
    [.view (declaredView schema view name)]
  obtain ⟨earlier, resources, member⟩ := synthesize_table_view policy objects
    (declaredTable schema name) (declaredView schema view name)
  rw [← same, ← Conversion.resources_of_ofScript result] at resources
  rw [← same] at found
  refine ⟨conversion, earlier, _, _, result, same, resources,
    kind_finishedMain policy _ _, name_finishedMain policy _ _, member,
    kind_finishedMain policy _ _, name_finishedMain policy _ _, ?_⟩
  rw [dependencies_selection selectable found isTable view,
    address_finishedMain]
  rfl

/-! ## Objects of the same name -/

/-- A procedure that has the schema and the name of a table. -/
def namesakeStatement : Text := "CREATE PROCEDURE s.n() RETURNS INT AS ''"

/-- The procedure that the statement creates. -/
def namesakeProcedure : DdlObject :=
  .procedure { name := .ofText "s.n", returnType := some "INT" }

theorem creates_namesakeStatement :
    Creates namesakeStatement namesakeProcedure := by
  decide +kernel

/-- The procedure stands behind a table that answers to the name, too. -/
theorem view_depends_on_selected_table_namesake :
    let table : DdlObject := .table
      { name := .ofText "S.N", columns := [{ name := "x", dataType := "INT" }] }
    let before : List Text := ["CREATE TABLE S.N (x INT)", namesakeStatement]
    IsSelectable {} "s" "n" ∧
      List.Forall₂ Creates before [table, namesakeProcedure] ∧
      (∀ object, [table, namesakeProcedure].find? (answers {} "s" "n") =
        some object → object.kind = .table) ∧
      ∃ conversion, ∃ view ∈ conversion.resources,
        Conversion.ofScript {} (selectionScript before "s" "v" "n") =
            .ok conversion ∧
          view.name = ("S_V" : Text) ∧
          view.dependencies = (["snowflake_table.S_N"] : List Text) := by
  intro table before
  have selectable : IsSelectable {} "s" "n" :=
    .of_ascii (by decide) (by decide) (by decide)
      (List.all_iff_forall_prop.mp (by decide))
  have create : List.Forall₂ Creates before [table, namesakeProcedure] :=
    .cons (by decide +kernel) (.cons creates_namesakeStatement .nil)
  have tableFirst : ∀ object,
      [table, namesakeProcedure].find? (answers {} "s" "n") = some object →
        object.kind = .table := by
    have first : [table, namesakeProcedure].find? (answers {} "s" "n") =
        some table := by
      decide +kernel
    rw [first]
    rintro object ⟨⟩
    rfl
  obtain ⟨conversion, earlier, view, found, result, -, resources, -, named, -,
    kind, name, depends⟩ := view_depends_on_selected_table {} selectable
      (by decide : ("v" : Text) ≠ []) (by decide) create tableFirst
  have last : view ∈ conversion.resources := by
    rw [resources]
    exact List.mem_append_right _ (List.mem_singleton_self view)
  refine ⟨selectable, create, tableFirst, conversion, view, last, result, ?_,
    ?_⟩
  · rw [named]
    decide +kernel
  · rw [depends, Resource.address, kind, name]
    decide +kernel

/-- The addresses of a conversion with the addresses that they depend on. -/
def dependencyGraph (policy : Policy) (script : Text) :
    Except Fault (List (Text × List Text)) :=
  (Conversion.ofScript policy script).map fun conversion =>
    conversion.resources.map fun resource =>
      (resource.address, resource.dependencies)

/--
A procedure of the same name is found if it stands in front of the table.
Quotes and capitals of several letters lead to other names, and line feeds
leave one of the two statements unread.
-/
theorem selection_leads_to_namesake :
    Creates namesakeStatement namesakeProcedure ∧
      dependencyGraph {} (selectionScript [namesakeStatement] "s" "v" "n") =
        .ok [("snowflake_procedure.S_N", []), ("snowflake_table.S_N", []),
          ("snowflake_view.S_V", ["snowflake_procedure.S_N"])] ∧
      dependencyGraph {} (selectionScript [] "s" "v" "a\"b") =
        .ok [("snowflake_table.S_A_B", []),
          ("snowflake_view.S_V", ["snowflake_table.S_A"])] ∧
      dependencyGraph {} (selectionScript [] "s" "v" "ß") =
        .ok [("snowflake_table.S__", []),
          ("snowflake_view.S_V", ["snowflake_table.S_SS"])] ∧
      dependencyGraph {} (selectionScript [] "s" "v" "a\nb") =
        .ok [("snowflake_view.S_V", ["snowflake_table.S_A_B"])] ∧
      dependencyGraph {} (selectionScript [] "s" "\nv" "n") =
        .ok [("snowflake_table.S_N", [])] := by
  refine ⟨creates_namesakeStatement, ?_, ?_, ?_, ?_, ?_⟩
  · decide +kernel
  · decide +kernel
  · decide +kernel
  · decide +kernel
  · decide +kernel

end Terraform

end Snowform
