import Snowform.Proofs.Terraform.Contents

/-!
# Where a block says what it belongs to

The first line of a block names its resource.  The block of an object has one
attribute for the schema that the object lives in, if there is one, and the
block of a constraint has one for each table that it speaks of.  No other
attribute has one of these keys.
-/

namespace Snowform.Terraform

open Text Hcl

/-! ## Attributes of objects -/

section

variable {key : Text}

theorem writtenFor_flatMap_eq_nil {α : Type} {items : α → List Item}
    (none : ∀ element, writtenFor key (items element) = [])
    (list : List α) : writtenFor key (list.flatMap items) = [] := by
  rw [writtenFor, List.filterMap_flatMap]
  exact List.flatMap_eq_nil_iff.mpr fun element _ => none element

theorem writtenFor_flagIf_other {own : Text} (other : own ≠ key)
    (value : Bool) : writtenFor key (flagIf own value) = [] := by
  cases value
  · rfl
  · exact List.filterMap_cons_none (Item.writtenFor?_flag_other other _)

theorem writtenFor_columns_other
    (others : ∀ own ∈ (["name", "type", "nullable", "constant", "expression",
      "comment"] : List Text), own ≠ key) (columns : List Column) :
    writtenFor key (columns.flatMap columnItems) = [] := by
  simp only [List.forall_mem_cons] at others
  obtain ⟨name, type, nullable, constant, expression, comment, -⟩ := others
  apply writtenFor_flatMap_eq_nil
  intro column
  change writtenFor key (nested "column" (columnBody column)) = []
  rw [writtenFor_nested, columnBody]
  simp only [writtenFor_append, writtenFor_cons, writtenFor_nil,
    Item.writtenFor?_text_other name, Item.writtenFor?_text_other type,
    writtenFor_nullable_other nullable,
    writtenFor_default_other ⟨constant, expression⟩,
    writtenFor_optionalText_other comment, Option.toList_none,
    List.append_nil]

theorem writtenFor_viewColumns_other (other : "column_name".toList ≠ key)
    (names : List Text) :
    writtenFor key (names.flatMap viewColumnItems) = [] := by
  apply writtenFor_flatMap_eq_nil
  intro name
  rw [viewColumnItems, writtenFor_nested, writtenFor_cons,
    Item.writtenFor?_text_other other, writtenFor_nil]
  rfl

theorem writtenFor_parameters_other {keys : ParameterKeys}
    (others : keys.name ≠ key ∧ keys.dataType ≠ key ∧ keys.defaultValue ≠ key)
    (parameters : List Parameter) :
    writtenFor key (parameters.flatMap (parameterItems keys)) = [] := by
  apply writtenFor_flatMap_eq_nil
  intro parameter
  rw [parameterItems, writtenFor_nested]
  simp only [writtenFor_append, writtenFor_cons, writtenFor_nil,
    Item.writtenFor?_text_other others.1,
    Item.writtenFor?_text_other others.2.1,
    writtenFor_optionalText_other others.2.2, Option.toList_none,
    List.append_nil]

end

section

variable (policy : Policy)

/-- An object says which schema it lives in, and refers to no table. -/
theorem writtenFor_objectParts (object : DdlObject) :
    writtenFor "schema" (objectParts policy object) =
        object.name.schema.toList.map policy.schemaReference ∧
      writtenFor "table_id" (objectParts policy object) = [] := by
  cases object with
  | table definition =>
      simp (disch := decide) only [objectParts, tableParts, Policy.location,
        DdlObject.name, writtenFor_append, writtenFor_cons, writtenFor_nil,
        Item.writtenFor?_text_other, writtenFor_raws_self,
        writtenFor_raws_other, writtenFor_optionalText_other,
        writtenFor_lists_other, writtenFor_columns_other, Option.toList_none,
        List.nil_append, List.append_nil, and_self]
  | view definition =>
      simp (disch := decide) only [objectParts, viewParts, Policy.location,
        DdlObject.name, writtenFor_append, writtenFor_cons, writtenFor_nil,
        Item.writtenFor?_text_other, writtenFor_raws_self,
        writtenFor_raws_other, writtenFor_optionalText_other,
        writtenFor_flagIf_other, writtenFor_viewColumns_other,
        Option.toList_none, List.nil_append, List.append_nil, and_self]
  | procedure definition =>
      rw [objectParts, procedureParts]
      split
      all_goals
        simp (disch := decide) only [Policy.location, DdlObject.name,
          writtenFor_append, writtenFor_cons, writtenFor_nil,
          Item.writtenFor?_text_other, writtenFor_raws_self,
          writtenFor_raws_other, writtenFor_optionalText_other,
          writtenFor_parameters_other, Option.toList_none, List.nil_append,
          List.append_nil, and_self]

/-- The values of an object are what is written for its items. -/
theorem valuesFor_finishedMain (objects : List DdlObject) (key : Text)
    (object : DdlObject) :
    valuesFor key (outline (finishedMain policy objects object).content) =
      writtenFor key (objectParts policy object) := by
  cases object with
  | table definition =>
      change valuesFor key
        (outline (tableResource policy definition).content) = _
      rw [outline_tableResource, valuesFor_append, valuesFor_outlined]
      exact List.append_nil _
  | view definition =>
      rw [outline_finishedMain policy objects rfl, valuesFor_outlined]
  | procedure definition =>
      rw [outline_finishedMain policy objects rfl, valuesFor_outlined]

/-- A constraint says nothing about schemas. -/
theorem writtenFor_constraintParts_schema (owner : QualifiedName)
    (constraint : Constraint) :
    writtenFor "schema" (constraintParts policy owner constraint) = [] := by
  simp (disch := decide) only [constraintParts, writtenFor_append,
    writtenFor_cons, writtenFor_nil, Item.writtenFor?_text_other,
    Item.writtenFor?_raw_other, Item.writtenFor?_texts_other,
    writtenFor_optionalFlag_other, writtenFor_targets_other,
    Option.toList_none, List.nil_append]

end

/-! ## First lines -/

theorem exists_writeEnd_eq (depth : Nat) :
    ∃ front, writeEnd depth = front ++ closingLine 0 := by
  match depth with
  | 0 => exact ⟨[], rfl⟩
  | 1 => exact ⟨[], rfl⟩
  | deeper + 2 =>
      obtain ⟨front, ending⟩ := exists_writeEnd_eq (deeper + 1)
      refine ⟨closingLine (deeper + 1) ++ front, ?_⟩
      rw [writeEnd, ending, List.append_assoc]

/-- The first line of a resource names it. -/
theorem blockStart_prefix_content {resource : Resource} {kind name : Text}
    {items : List Item}
    (block : resource.block = resourceBlock kind name items) :
    blockStart kind name ++ ['\n'] <+: resource.content := by
  obtain ⟨front, written⟩ := exists_writeItems_append items [] 1
  obtain ⟨lines, ending⟩ := exists_writeEnd_eq (depthBehind 1 items)
  rw [List.append_nil] at written
  have whole : resource.block =
      blockStart kind name ++ '\n' :: (front ++ lines) ++ closingLine 0 := by
    rw [block, resourceBlock_eq, written, writeItems, ending]
    simp only [List.append_assoc, List.cons_append]
  rw [content_eq_append whole]
  refine ⟨front ++ lines ++ ofLines (closingLines resource.dependencies), ?_⟩
  simp only [List.append_assoc, List.cons_append, List.nil_append]

end Snowform.Terraform
