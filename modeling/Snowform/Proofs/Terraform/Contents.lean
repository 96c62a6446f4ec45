import Snowform.Proofs.Terraform.Outlines

/-!
# What contents tell

The content of a table or a constraint tells everything that is written for
it.  The outline of the content is the list of its items, the columns of a
table stand between the openings of their blocks, and no two attributes of
one block have the same key, so each value is found by its key.
-/

namespace Snowform.Terraform

open Text Hcl

/-! ## Attributes -/

section

variable {key own : Text}

theorem writtenFor_optionalText_self (value : Option Text) :
    writtenFor key (optionalText key value) = value.toList.map quoted := by
  rw [optionalText, writtenFor_map Item.writtenFor?_text_self,
    List.filterMap_eq_map']

/-- What a block writes is what its items write. -/
theorem writtenFor_nested (name : Text) (items : List Item) :
    writtenFor key (nested name items) = writtenFor key items := by
  rw [nested, writtenFor_append, writtenFor_cons, writtenFor_cons,
    Item.writtenFor?_opening, Item.writtenFor?_closing, writtenFor_nil]
  exact List.append_nil _

theorem writtenFor_optionalText_other (other : own ≠ key)
    (value : Option Text) : writtenFor key (optionalText own value) = [] := by
  rw [optionalText, writtenFor_map (Item.writtenFor?_text_other other),
    List.filterMap_none]

theorem writtenFor_raws_self {α : Type} (list : List α) (value : α → Text) :
    writtenFor key (list.map fun element => Item.raw key (value element)) =
      list.map value := by
  rw [writtenFor_map fun element => Item.writtenFor?_raw_self (value element),
    List.filterMap_eq_map']

theorem writtenFor_raws_other {α : Type} (other : own ≠ key) (list : List α)
    (value : α → Text) :
    writtenFor key (list.map fun element => Item.raw own (value element)) =
      [] := by
  rw [writtenFor_map fun element =>
    Item.writtenFor?_raw_other other (value element), List.filterMap_none]

theorem writtenFor_lists_self (list : List (List Text)) :
    writtenFor key (list.map (Item.texts key)) = list.map listed := by
  rw [writtenFor_map Item.writtenFor?_texts_self, List.filterMap_eq_map']

theorem writtenFor_lists_other (other : own ≠ key) (list : List (List Text)) :
    writtenFor key (list.map (Item.texts own)) = [] := by
  rw [writtenFor_map (Item.writtenFor?_texts_other other),
    List.filterMap_none]

theorem writtenFor_optionalFlag_self (value : Option Bool) :
    writtenFor key (optionalFlag key value) =
      value.toList.map fun flag =>
        (if flag then "true" else "false" : Text) := by
  rw [optionalFlag, writtenFor_map Item.writtenFor?_flag_self,
    List.filterMap_eq_map']

theorem writtenFor_optionalFlag_other (other : own ≠ key)
    (value : Option Bool) : writtenFor key (optionalFlag own value) = [] := by
  rw [optionalFlag, writtenFor_map (Item.writtenFor?_flag_other other),
    List.filterMap_none]

end

/-- What is written for a value that may be missing tells the value. -/
theorem eq_of_map_toList {α β : Type} {written : α → β}
    (tells : Function.Injective written) {first second : Option α}
    (same : first.toList.map written = second.toList.map written) :
    first = second := by
  have lists := List.map_injective_iff.mpr tells same
  cases first <;> cases second <;> simp_all

/-! ## Columns -/

/-- The items inside the block of a column. -/
def columnBody (column : Column) : List Item :=
  [Item.text "name" column.name,
    Item.text "type" (columnType column.dataType)] ++
  (if column.nullable then [] else [Item.flag "nullable" false]) ++
  column.defaultValue.toList.flatMap defaultItems ++
  optionalText "comment" column.comment

/-- Columns for which the same is written. -/
structure AreAlikeColumns (first second : Column) : Prop where
  name : first.name = second.name
  dataType : columnType first.dataType = columnType second.dataType
  nullable : first.nullable = second.nullable
  defaultValue : first.defaultValue.map ColumnDefault.ofText =
    second.defaultValue.map ColumnDefault.ofText
  comment : first.comment = second.comment

/-- The constants among the values of a default. -/
def constantsOf : Option ColumnDefault → List Text
  | some (.constant literal) => [literal]
  | _ => []

/-- The expressions among the values of a default. -/
def expressionsOf : Option ColumnDefault → List Text
  | some (.expression text) => [text]
  | _ => []

/-- A default is told from the two attributes that could hold it. -/
theorem default_eq_of_values {first second : Option ColumnDefault}
    (constants : constantsOf first = constantsOf second)
    (expressions : expressionsOf first = expressionsOf second) :
    first = second := by
  rcases first with _ | (literal | text) <;>
    rcases second with _ | (other | other) <;>
    simp_all [constantsOf, expressionsOf]

/-- The attribute of a default stands in a block of its own. -/
theorem writtenFor_default (key : Text) (written : Option Text) :
    writtenFor key (written.toList.flatMap defaultItems) =
      (written.map ColumnDefault.ofText).toList.flatMap fun value =>
        writtenFor key [Item.raw value.key value.value] := by
  cases written with
  | none => rfl
  | some text =>
      rw [Option.map_some, Option.toList_some, Option.toList_some,
        List.flatMap_singleton, List.flatMap_singleton, defaultItems,
        writtenFor_nested]

theorem writtenFor_default_constant (written : Option Text) :
    writtenFor "constant" (written.toList.flatMap defaultItems) =
      constantsOf (written.map ColumnDefault.ofText) := by
  have other : "expression".toList ≠ "constant".toList := by decide
  rw [writtenFor_default]
  rcases written.map ColumnDefault.ofText with _ | (literal | text)
  · rfl
  · rw [Option.toList_some, List.flatMap_singleton, writtenFor_cons]
    exact congrArg (·.toList ++ []) (Item.writtenFor?_raw_self literal)
  · rw [Option.toList_some, List.flatMap_singleton, writtenFor_cons]
    exact congrArg (·.toList ++ []) (Item.writtenFor?_raw_other other _)

theorem writtenFor_default_expression (written : Option Text) :
    writtenFor "expression" (written.toList.flatMap defaultItems) =
      (expressionsOf (written.map ColumnDefault.ofText)).map quoted := by
  have other : "constant".toList ≠ "expression".toList := by decide
  rw [writtenFor_default]
  rcases written.map ColumnDefault.ofText with _ | (literal | text)
  · rfl
  · rw [Option.toList_some, List.flatMap_singleton, writtenFor_cons]
    exact congrArg (·.toList ++ []) (Item.writtenFor?_raw_other other _)
  · rw [Option.toList_some, List.flatMap_singleton, writtenFor_cons]
    exact congrArg (·.toList ++ []) (Item.writtenFor?_raw_self (quoted text))

theorem writtenFor_default_other {key : Text}
    (other : "constant".toList ≠ key ∧ "expression".toList ≠ key)
    (written : Option Text) :
    writtenFor key (written.toList.flatMap defaultItems) = [] := by
  rw [writtenFor_default]
  rcases written.map ColumnDefault.ofText with _ | (literal | text)
  · rfl
  · rw [Option.toList_some, List.flatMap_singleton, writtenFor_cons]
    exact congrArg (·.toList ++ []) (Item.writtenFor?_raw_other other.1 _)
  · rw [Option.toList_some, List.flatMap_singleton, writtenFor_cons]
    exact congrArg (·.toList ++ []) (Item.writtenFor?_raw_other other.2 _)

theorem writtenFor_nullable (nullable : Bool) :
    writtenFor "nullable"
        (if nullable then [] else [Item.flag "nullable" false]) =
      if nullable then [] else ["false".toList] := by
  cases nullable <;> rfl

theorem writtenFor_nullable_other {key : Text}
    (other : "nullable".toList ≠ key) (nullable : Bool) :
    writtenFor key (if nullable then [] else [Item.flag "nullable" false]) =
      [] := by
  cases nullable
  · exact List.filterMap_cons_none (Item.writtenFor?_flag_other other _)
  · rfl

/-- What the block of a column gives to its keys. -/
theorem writtenFor_columnBody (column : Column) :
    writtenFor "name" (columnBody column) = [quoted column.name] ∧
      writtenFor "type" (columnBody column) =
        [quoted (columnType column.dataType)] ∧
      writtenFor "nullable" (columnBody column) =
        (if column.nullable then [] else ["false".toList]) ∧
      writtenFor "constant" (columnBody column) =
        constantsOf (column.defaultValue.map ColumnDefault.ofText) ∧
      writtenFor "expression" (columnBody column) =
        (expressionsOf (column.defaultValue.map ColumnDefault.ofText)).map
          quoted ∧
      writtenFor "comment" (columnBody column) =
        column.comment.toList.map quoted := by
  simp (disch := decide) only [columnBody, writtenFor_append, writtenFor_cons,
    writtenFor_nil, Item.writtenFor?_text_self, Item.writtenFor?_text_other,
    writtenFor_nullable, writtenFor_nullable_other,
    writtenFor_default_constant, writtenFor_default_expression,
    writtenFor_default_other, writtenFor_optionalText_self,
    writtenFor_optionalText_other, Option.toList_some, Option.toList_none,
    List.nil_append, List.append_nil, and_self]

/-- Columns of which the same is written are alike. -/
theorem areAlikeColumns_of_outlined {first second : Column}
    (same : (columnBody first).filterMap Item.outlined? =
      (columnBody second).filterMap Item.outlined?) :
    AreAlikeColumns first second := by
  have values : ∀ key, writtenFor key (columnBody first) =
      writtenFor key (columnBody second) := by
    intro key
    rw [← valuesFor_outlined, ← valuesFor_outlined, same]
  obtain ⟨name, dataType, nullable, constant, expression, comment⟩ :=
    writtenFor_columnBody first
  obtain ⟨name', dataType', nullable', constant', expression', comment'⟩ :=
    writtenFor_columnBody second
  rw [values, name'] at name
  rw [values, dataType'] at dataType
  rw [values, nullable'] at nullable
  rw [values, constant'] at constant
  rw [values, expression'] at expression
  rw [values, comment'] at comment
  have expressions := List.map_injective_iff.mpr quoted_injective expression
  refine ⟨?_, ?_, ?_, ?_, ?_⟩
  · exact (quoted_injective (List.cons.inj name).1).symm
  · exact (quoted_injective (List.cons.inj dataType).1).symm
  · cases small : first.nullable <;> cases large : second.nullable <;>
      simp_all
  · exact (default_eq_of_values constant expressions).symm
  · exact (eq_of_map_toList quoted_injective comment).symm

/-! ## Tables -/

/-- The items of a table in front of its columns. -/
def tableHead (policy : Policy) (table : Table) : List Item :=
  policy.location table.name ++ optionalText "comment" table.comment ++
    table.clusterBy.toList.map (Item.texts "cluster_by")

/-- Tables for which the same is written. -/
structure AreAlikeTables (policy : Policy) (first second : Table) :
    Prop where
  name : first.name.name = second.name.name
  database : first.name.database.isSome = second.name.database.isSome
  schema : first.name.schema.map policy.schema =
    second.name.schema.map policy.schema
  comment : first.comment = second.comment
  clusterBy : first.clusterBy = second.clusterBy
  columns : List.Forall₂ AreAlikeColumns first.columns second.columns

section

variable (policy : Policy)

/-- The head of a table writes its name, its place, its comment and its keys. -/
theorem writtenFor_tableHead (table : Table) :
    writtenFor "name" (tableHead policy table) = [quoted table.name.name] ∧
      writtenFor "database" (tableHead policy table) =
        table.name.database.toList.map (fun _ => databaseReference) ∧
      writtenFor "schema" (tableHead policy table) =
        table.name.schema.toList.map policy.schemaReference ∧
      writtenFor "comment" (tableHead policy table) =
        table.comment.toList.map quoted ∧
      writtenFor "cluster_by" (tableHead policy table) =
        table.clusterBy.toList.map listed := by
  simp (disch := decide) only [tableHead, Policy.location, writtenFor_append,
    writtenFor_cons, writtenFor_nil, Item.writtenFor?_text_self,
    Item.writtenFor?_text_other, writtenFor_raws_self, writtenFor_raws_other,
    writtenFor_optionalText_self, writtenFor_optionalText_other,
    writtenFor_lists_self, writtenFor_lists_other, Option.toList_some,
    Option.toList_none, List.nil_append, List.append_nil, and_self]

/-- The opening of the block of a column. -/
def columnOpening : Item := .opening "column"

/-- What an outline holds between two columns opens no column. -/
theorem opens_eq_false {items : List Item} (other : columnOpening ∉ items) :
    ∀ item ∈ items.filterMap Item.outlined?,
      (item == columnOpening) = false := by
  intro item member
  apply beq_eq_false_iff_ne.mpr
  rintro rfl
  exact other (opening_mem_outlined.mp member)

theorem columnOpening_not_mem_tableHead (table : Table) :
    columnOpening ∉ tableHead policy table := by
  simp [tableHead, Policy.location, optionalText, columnOpening]

theorem columnOpening_not_mem_columnBody (column : Column) :
    columnOpening ∉ columnBody column := by
  have noNullable : columnOpening ∉
      (if column.nullable then [] else [Item.flag "nullable" false]) := by
    cases column.nullable <;> simp [columnOpening]
  have noDefault : columnOpening ∉
      column.defaultValue.toList.flatMap defaultItems := by
    intro member
    obtain ⟨written, -, inside⟩ := List.mem_flatMap.mp member
    have other : columnOpening ≠ Item.opening "default" := by decide
    simp only [defaultItems, nested, List.cons_append, List.nil_append,
      List.mem_cons, List.not_mem_nil, or_false] at inside
    rcases inside with opens | value | closes
    · exact other opens
    · cases value
    · cases closes
  simp only [columnBody, List.mem_append, not_or]
  refine ⟨⟨⟨?_, noNullable⟩, noDefault⟩, ?_⟩
  · simp [columnOpening]
  · simp [optionalText, columnOpening]

/-- The outline of a table is cut at the openings of its columns. -/
theorem outlined_tableParts (table : Table) :
    (tableParts policy table).filterMap Item.outlined? =
      (tableHead policy table).filterMap Item.outlined? ++
        table.columns.flatMap fun column => columnOpening ::
          ((columnBody column).filterMap Item.outlined? ++ [.closing]) := by
  have column : ∀ column, (columnItems column).filterMap Item.outlined? =
      columnOpening ::
        ((columnBody column).filterMap Item.outlined? ++ [.closing]) := by
    intro column
    change columnOpening :: (columnBody column ++ [Item.closing]).filterMap
      Item.outlined? = _
    rw [List.filterMap_append]
    rfl
  have parts : tableParts policy table =
      tableHead policy table ++ table.columns.flatMap columnItems := rfl
  rw [parts, List.filterMap_append, List.filterMap_flatMap]
  exact congrArg (_ ++ List.flatMap · table.columns) (funext column)

theorem schemaReference_inj {first second : Text}
    (same : policy.schemaReference first = policy.schemaReference second) :
    policy.schema first = policy.schema second :=
  List.append_cancel_left (List.append_cancel_right same)

/-- Schemas that are referenced alike are the same schema. -/
theorem schemas_eq_of_references {first second : Option Text}
    (same : first.toList.map policy.schemaReference =
      second.toList.map policy.schemaReference) :
    first.map policy.schema = second.map policy.schema := by
  cases first with
  | none =>
      cases second with
      | none => rfl
      | some schema => cases same
  | some schema =>
      cases second with
      | none => cases same
      | some other =>
          exact congrArg some
            (schemaReference_inj policy (List.cons.inj same).1)

/-- Cutting the outline of a table gives its head and its columns. -/
theorem pieces_tableParts (table : Table) :
    piecesAt (· == columnOpening)
        ((tableParts policy table).filterMap Item.outlined?) =
      (tableHead policy table).filterMap Item.outlined? ::
        table.columns.map fun column =>
          (columnBody column).filterMap Item.outlined? ++ [Item.closing] := by
  have head := opens_eq_false (columnOpening_not_mem_tableHead policy table)
  have bodies : ∀ column, ∀ item ∈
      (columnBody column).filterMap Item.outlined? ++ [Item.closing],
      (item == columnOpening) = false := by
    intro column
    refine List.forall_mem_append.mpr
      ⟨opens_eq_false (columnOpening_not_mem_columnBody column), ?_⟩
    exact List.forall_mem_singleton.mpr rfl
  rw [outlined_tableParts]
  refine piecesAt_append_flatMap ?_ head bodies _
  exact beq_self_eq_true columnOpening

/-- Tables with the same content are alike. -/
theorem areAlikeTables_of_content {first second : Table}
    (same : (tableResource policy first).content =
      (tableResource policy second).content) :
    AreAlikeTables policy first second := by
  have outlines := congrArg outline same
  rw [outline_tableResource, outline_tableResource] at outlines
  have pieces := congrArg (piecesAt (· == columnOpening))
    (List.append_cancel_right outlines)
  rw [pieces_tableParts, pieces_tableParts] at pieces
  obtain ⟨heads, bodies⟩ := List.cons.inj pieces
  have values : ∀ key, writtenFor key (tableHead policy first) =
      writtenFor key (tableHead policy second) := by
    intro key
    rw [← valuesFor_outlined, ← valuesFor_outlined, heads]
  obtain ⟨name, database, schema, comment, clusterBy⟩ :=
    writtenFor_tableHead policy first
  obtain ⟨name', database', schema', comment', clusterBy'⟩ :=
    writtenFor_tableHead policy second
  rw [values, name'] at name
  rw [values, database'] at database
  rw [values, schema'] at schema
  rw [values, comment'] at comment
  rw [values, clusterBy'] at clusterBy
  refine ⟨?_, ?_, ?_, ?_, ?_, ?_⟩
  · exact (quoted_injective (List.cons.inj name).1).symm
  · cases small : first.name.database <;>
      cases large : second.name.database <;> simp_all
  · exact (schemas_eq_of_references policy schema).symm
  · exact (eq_of_map_toList quoted_injective comment).symm
  · exact (eq_of_map_toList listed_injective clusterBy).symm
  · rw [← List.forall₂_eq_eq_eq, List.forall₂_map_left_iff,
      List.forall₂_map_right_iff] at bodies
    exact bodies.imp fun _ _ body =>
      areAlikeColumns_of_outlined (List.append_cancel_right body)

end

/-! ## Constraints -/

/-- What is written for the target of a foreign key. -/
def writtenTarget (policy : Policy) (owner : QualifiedName)
    (target : ForeignKeyTarget) : Text × List Text :=
  (policy.resourceName (targetName owner target), target.columns)

/-- Constraints for which the same is written, each with its owner. -/
structure AreAlikeConstraints (policy : Policy)
    (owner otherOwner : QualifiedName) (first second : Constraint) :
    Prop where
  name : first.name = second.name
  kind : first.kind = second.kind
  columns : first.columns = second.columns
  rely : first.flags.rely = second.flags.rely
  enable : first.flags.enable = second.flags.enable
  deferrable : first.flags.deferrable = second.flags.deferrable
  references : first.references.map (writtenTarget policy owner) =
    second.references.map (writtenTarget policy otherOwner)

theorem keyword_injective : Function.Injective ConstraintKind.keyword := by
  intro first second
  cases first <;> cases second <;> decide

theorem flagText_injective :
    Function.Injective fun flag : Bool =>
      (if flag then "true" else "false" : Text) := by
  intro first second
  cases first <;> cases second <;> decide

theorem tableReference_injective : Function.Injective tableReference := by
  intro first second same
  have addresses := List.append_cancel_right same
  exact (List.cons.inj (List.append_cancel_left addresses)).2

section

variable (policy : Policy) (owner : QualifiedName)

theorem writtenFor_target (key : Text) (target : ForeignKeyTarget) :
    writtenFor key (targetItems policy owner target) =
      writtenFor key [Item.raw "table_id"
        (tableReference (writtenTarget policy owner target).1)] ++
        if target.columns.isEmpty then
          []
        else
          writtenFor key [Item.texts "columns" target.columns] := by
  rw [targetItems, writtenFor_nested, writtenFor_nested, writtenFor_cons,
    writtenFor_cons, writtenFor_nil, List.append_nil]
  split <;> rfl

/-- What is written for the columns of the target, if there are any. -/
def targetColumns (target : ForeignKeyTarget) : List Text :=
  if target.columns.isEmpty then [] else [listed target.columns]

theorem writtenFor_targets_tables (references : Option ForeignKeyTarget) :
    writtenFor "table_id"
        (references.toList.flatMap (targetItems policy owner)) =
      references.toList.map fun target =>
        tableReference (writtenTarget policy owner target).1 := by
  have other : "columns".toList ≠ "table_id".toList := by decide
  cases references with
  | none => rfl
  | some target =>
      rw [Option.toList_some, List.flatMap_singleton, writtenFor_target,
        writtenFor_cons, writtenFor_cons, Item.writtenFor?_raw_self,
        Item.writtenFor?_texts_other other, writtenFor_nil]
      split <;> rfl

theorem writtenFor_targets_columns (references : Option ForeignKeyTarget) :
    writtenFor "columns"
        (references.toList.flatMap (targetItems policy owner)) =
      references.toList.flatMap targetColumns := by
  have other : "table_id".toList ≠ "columns".toList := by decide
  cases references with
  | none => rfl
  | some target =>
      rw [Option.toList_some, List.flatMap_singleton, List.flatMap_singleton,
        writtenFor_target, writtenFor_cons, writtenFor_cons,
        Item.writtenFor?_raw_other other, Item.writtenFor?_texts_self,
        writtenFor_nil, targetColumns]
      rfl

theorem writtenFor_targets_other {key : Text}
    (other : "table_id".toList ≠ key ∧ "columns".toList ≠ key)
    (references : Option ForeignKeyTarget) :
    writtenFor key (references.toList.flatMap (targetItems policy owner)) =
      [] := by
  cases references with
  | none => rfl
  | some target =>
      rw [Option.toList_some, List.flatMap_singleton, writtenFor_target,
        writtenFor_cons, writtenFor_cons, Item.writtenFor?_raw_other other.1,
        Item.writtenFor?_texts_other other.2, writtenFor_nil]
      split <;> rfl

/--
A constraint writes its name and its kind, its tables, its columns and its
flags.
-/
theorem writtenFor_constraintParts (constraint : Constraint) :
    let parts := constraintParts policy owner constraint
    writtenFor "name" parts = [quoted constraint.name] ∧
      writtenFor "type" parts = [quoted constraint.kind.keyword] ∧
      writtenFor "table_id" parts =
        tableReference (policy.resourceName owner) ::
          constraint.references.toList.map (fun target =>
            tableReference (writtenTarget policy owner target).1) ∧
      writtenFor "columns" parts = listed constraint.columns ::
        constraint.references.toList.flatMap targetColumns ∧
      writtenFor "rely" parts = constraint.flags.rely.toList.map
        (fun flag => (if flag then "true" else "false" : Text)) ∧
      writtenFor "enable" parts = constraint.flags.enable.toList.map
        (fun flag => (if flag then "true" else "false" : Text)) ∧
      writtenFor "deferrable" parts = constraint.flags.deferrable.toList.map
        (fun flag => (if flag then "true" else "false" : Text)) := by
  intro parts
  simp (disch := decide) only [parts, constraintParts, writtenFor_append,
    writtenFor_cons, Item.writtenFor?_text_self,
    Item.writtenFor?_text_other, Item.writtenFor?_raw_self,
    Item.writtenFor?_raw_other, Item.writtenFor?_texts_self,
    Item.writtenFor?_texts_other, writtenFor_optionalFlag_self,
    writtenFor_optionalFlag_other, writtenFor_targets_tables,
    writtenFor_targets_columns, writtenFor_targets_other, Option.toList_some,
    Option.toList_none, List.nil_append, List.append_nil, List.cons_append,
    and_self]

/-- Referenced columns that are written alike are the same. -/
theorem columns_eq_of_targetColumns {first second : ForeignKeyTarget}
    (same : targetColumns first = targetColumns second) :
    first.columns = second.columns := by
  rw [targetColumns, targetColumns] at same
  split_ifs at same with none noneOther noneOther
  · exact (List.isEmpty_iff.mp none).trans (List.isEmpty_iff.mp noneOther).symm
  · exact listed_injective (List.cons.inj same).1

/-- A target is told from its table and from its columns. -/
theorem writtenTargets_eq {owner otherOwner : QualifiedName}
    {first second : Option ForeignKeyTarget}
    (tables : first.toList.map (fun target =>
        tableReference (writtenTarget policy owner target).1) =
      second.toList.map (fun target =>
        tableReference (writtenTarget policy otherOwner target).1))
    (columns : first.toList.flatMap targetColumns =
      second.toList.flatMap targetColumns) :
    first.map (writtenTarget policy owner) =
      second.map (writtenTarget policy otherOwner) := by
  cases first with
  | none =>
      cases second with
      | none => rfl
      | some target => cases tables
  | some target =>
      cases second with
      | none => cases tables
      | some other =>
          have table := tableReference_injective (List.cons.inj tables).1
          have lists : targetColumns target = targetColumns other :=
            List.append_cancel_right columns
          exact congrArg some
            (Prod.ext table (columns_eq_of_targetColumns lists))

/-- The values of a constraint are what is written for its items. -/
theorem valuesFor_finishedConstraint (objects : List DdlObject)
    (table : Table) (constraint : Constraint) {key : Text}
    (other : dependencyKey ≠ key) :
    valuesFor key
        (outline (finishedConstraint policy objects table constraint).content) =
      writtenFor key (constraintParts policy table.name constraint) := by
  have ending : ∀ dependencies, valuesFor key
      (dependencyItems dependencies ++ [Item.closing]) = [] := by
    intro dependencies
    rw [dependencyItems]
    split
    · rfl
    · simp [valuesFor, Item.valueFor?, other]
  rw [outline_finishedConstraint, valuesFor_append, ending, List.append_nil,
    valuesFor_outlined]

/-- Constraints with the same content are alike. -/
theorem areAlikeConstraints_of_content {objects others : List DdlObject}
    {table otherTable : Table} {first second : Constraint}
    (same : (finishedConstraint policy objects table first).content =
      (finishedConstraint policy others otherTable second).content) :
    AreAlikeConstraints policy table.name otherTable.name first second := by
  have values : ∀ {key}, dependencyKey ≠ key →
      writtenFor key (constraintParts policy table.name first) =
        writtenFor key (constraintParts policy otherTable.name second) := by
    intro key other
    rw [← valuesFor_finishedConstraint policy objects table first other,
      ← valuesFor_finishedConstraint policy others otherTable second other,
      same]
  obtain ⟨name, kind, tables, columns, rely, enable, deferrable⟩ :=
    writtenFor_constraintParts policy table.name first
  obtain ⟨name', kind', tables', columns', rely', enable', deferrable'⟩ :=
    writtenFor_constraintParts policy otherTable.name second
  rw [values (by decide), name'] at name
  rw [values (by decide), kind'] at kind
  rw [values (by decide), tables'] at tables
  rw [values (by decide), columns'] at columns
  rw [values (by decide), rely'] at rely
  rw [values (by decide), enable'] at enable
  rw [values (by decide), deferrable'] at deferrable
  have kinds := quoted_injective (List.cons.inj kind).1
  exact {
    name := (quoted_injective (List.cons.inj name).1).symm
    kind := (keyword_injective kinds).symm
    columns := (listed_injective (List.cons.inj columns).1).symm
    rely := (eq_of_map_toList flagText_injective rely).symm
    enable := (eq_of_map_toList flagText_injective enable).symm
    deferrable := (eq_of_map_toList flagText_injective deferrable).symm
    references := (writtenTargets_eq policy (List.cons.inj tables).2
      (List.cons.inj columns).2).symm }

end

/-! ## What contents tell -/

/--
The content of a table or a constraint says what its items are and nothing
else, whatever the texts in it are.  So tables with the same content are
alike, and so are constraints with the same content.
-/
theorem contents_tell_what_is_written (policy : Policy) :
    (∀ table, outline (tableResource policy table).content =
      (tableParts policy table).filterMap Item.outlined? ++ [.closing]) ∧
      (∀ objects table constraint,
        outline (finishedConstraint policy objects table constraint).content =
          (constraintParts policy table.name constraint).filterMap
              Item.outlined? ++
            (dependencyItems (finishedConstraint policy objects table
              constraint).dependencies ++ [.closing])) ∧
      (∀ first second,
        (tableResource policy first).content =
            (tableResource policy second).content →
          AreAlikeTables policy first second) ∧
      ∀ objects others table otherTable first second,
        (finishedConstraint policy objects table first).content =
            (finishedConstraint policy others otherTable second).content →
          AreAlikeConstraints policy table.name otherTable.name first
            second := by
  refine ⟨?_, ?_, ?_, ?_⟩
  · exact outline_tableResource policy
  · exact outline_finishedConstraint policy
  · exact fun _ _ => areAlikeTables_of_content policy
  · exact fun _ _ _ _ _ _ => areAlikeConstraints_of_content policy

/-- Spellings that differ and lead to the same content. -/
theorem contents_tell_what_is_written_of_spellings :
    ∃ (first second : Table) (constraint other : Constraint),
      first ≠ second ∧ constraint ≠ other ∧
        AreAlikeTables {} first second ∧
        AreAlikeConstraints {} first.name second.name constraint other := by
  let first : Table := {
    name := ⟨none, some "s".toList, "\"\x7d\n".toList⟩
    columns := [⟨"a", "INT", true, some "0".toList, none⟩] }
  let second : Table := {
    name := ⟨none, some "S_SANDBOX".toList, "\"\x7d\n".toList⟩
    columns := [⟨"a", "integer", true, some " 0 ".toList, none⟩] }
  let key (target : Text) : Constraint := {
    name := "f"
    kind := .foreignKey
    columns := ["a".toList]
    references := some ⟨⟨none, none, target⟩, []⟩ }
  have tables : (tableResource {} first).content =
      (tableResource {} second).content := by
    decide +kernel
  have constraints : (finishedConstraint {} [] first (key "t")).content =
      (finishedConstraint {} [] second (key "T")).content := by
    decide +kernel
  have told := contents_tell_what_is_written {}
  exact ⟨first, second, key "t", key "T", by decide +kernel,
    by decide +kernel, told.2.2.1 _ _ tables,
    told.2.2.2 _ _ _ _ _ _ constraints⟩

end Snowform.Terraform
