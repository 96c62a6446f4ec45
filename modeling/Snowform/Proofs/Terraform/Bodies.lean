import Snowform.Proofs.Terraform.Dependencies

/-!
# Bodies in resource blocks

The query of a view and the body of a procedure stand at the end of their
block, as a heredoc that only dependencies and the closing line follow.  The
heredoc is read back whole unless the body has both markers on lines of their
own: then the marker is one that a line of the body holds, and what stands
behind that line is read as if it were behind the body.
-/

namespace Snowform.Terraform

open Text Hcl

/-! ## Balanced items -/

/-- Items that leave the depth alone leave it alone together. -/
theorem isBalanced_map {α : Type} (list : List α) {item : α → Item}
    (flat : ∀ element depth, (item element).depthAfter depth = depth) :
    IsBalanced (list.map item) := by
  intro depth
  induction list with
  | nil => rfl
  | cons element others ih =>
      rw [List.map_cons, depthBehind, List.foldl_cons, flat]
      exact ih

theorem isBalanced_text (key value : Text) :
    IsBalanced [Item.text key value] := fun _ => rfl

theorem isBalanced_optionalText (key : Text) (value : Option Text) :
    IsBalanced (optionalText key value) :=
  isBalanced_map value.toList fun _ _ => rfl

theorem isBalanced_flagIf (key : Text) (value : Bool) :
    IsBalanced (flagIf key value) := by
  cases value <;> exact fun _ => rfl

/-- A block closes what it opens. -/
theorem isBalanced_nested (name : Text) {items : List Item}
    (balanced : IsBalanced items) : IsBalanced (nested name items) := by
  intro depth
  have inside : items.foldl Item.depthAfter (depth + 1) = depth + 1 :=
    balanced (depth + 1)
  calc
    depthBehind depth (nested name items) =
        (items.foldl Item.depthAfter (depth + 1)) - 1 := by
      rw [nested, List.cons_append, depthBehind, List.foldl_cons,
        List.foldl_append]
      rfl
    _ = depth := by rw [inside, Nat.add_sub_cancel]

theorem isBalanced_location (policy : Policy) (name : QualifiedName) :
    IsBalanced (policy.location name) :=
  ((isBalanced_text _ _).append (isBalanced_map _ fun _ _ => rfl)).append
    (isBalanced_map _ fun _ _ => rfl)

theorem isBalanced_viewColumnItems (name : Text) :
    IsBalanced (viewColumnItems name) :=
  isBalanced_nested _ (isBalanced_text _ _)

theorem isBalanced_parameterItems (keys : ParameterKeys)
    (parameter : Parameter) : IsBalanced (parameterItems keys parameter) :=
  isBalanced_nested _ (((isBalanced_text _ _).append
    (isBalanced_text _ _)).append (isBalanced_optionalText _ _))

theorem isBalanced_optionalFlag (key : Text) (value : Option Bool) :
    IsBalanced (optionalFlag key value) :=
  isBalanced_map value.toList fun _ _ => rfl

theorem isBalanced_defaultItems (written : Text) :
    IsBalanced (defaultItems written) :=
  isBalanced_nested _ fun _ => rfl

/-- A column closes the blocks that it opens. -/
theorem isBalanced_columnItems (column : Column) :
    IsBalanced (columnItems column) := by
  refine isBalanced_nested _ (((IsBalanced.append ?_ ?_).append ?_).append ?_)
  · exact (isBalanced_text _ _).append (isBalanced_text _ _)
  · split <;> exact fun _ => rfl
  · exact isBalanced_flatMap isBalanced_defaultItems
  · exact isBalanced_optionalText _ _

section

variable (policy : Policy)

/-- A referenced table closes the blocks that it opens. -/
theorem isBalanced_targetItems (owner : QualifiedName)
    (target : ForeignKeyTarget) :
    IsBalanced (targetItems policy owner target) := by
  refine isBalanced_nested _ (isBalanced_nested _ ?_)
  split <;> exact fun _ => rfl

/-- A constraint closes the blocks that it opens. -/
theorem isBalanced_constraintParts (owner : QualifiedName)
    (constraint : Constraint) :
    IsBalanced (constraintParts policy owner constraint) := by
  refine (((IsBalanced.append ?_ ?_).append ?_).append ?_).append ?_
  · exact fun _ => rfl
  · exact isBalanced_optionalFlag _ _
  · exact isBalanced_optionalFlag _ _
  · exact isBalanced_optionalFlag _ _
  · exact isBalanced_flatMap (isBalanced_targetItems policy owner)

/-- The items of an object but its body. -/
def objectParts : DdlObject → List Item
  | .table definition => tableParts policy definition
  | .view definition => viewParts policy definition
  | .procedure definition => procedureParts policy definition

/-- All of an object but its body is written line by line. -/
theorem areLines_objectParts (object : DdlObject) :
    AreLines (objectParts policy object) := by
  cases object with
  | table definition => exact areLines_tableParts policy definition
  | view definition => exact areLines_viewParts policy definition
  | procedure definition => exact areLines_procedureParts policy definition

/-- An object closes the blocks that it opens. -/
theorem isBalanced_objectParts (object : DdlObject) :
    IsBalanced (objectParts policy object) := by
  cases object with
  | table definition =>
      refine (((isBalanced_location policy _).append ?_).append ?_).append ?_
      · exact isBalanced_optionalText _ _
      · exact isBalanced_map _ fun _ _ => rfl
      · exact isBalanced_flatMap isBalanced_columnItems
  | view definition =>
      refine ((((isBalanced_location policy _).append ?_).append ?_).append
        ?_).append ?_
      · exact isBalanced_optionalText _ _
      · exact isBalanced_flagIf _ _
      · exact isBalanced_flagIf _ _
      · exact isBalanced_flatMap isBalanced_viewColumnItems
  | procedure definition =>
      rw [objectParts, procedureParts]
      split
      all_goals
        refine ((((isBalanced_location policy _).append ?_).append ?_).append
          ?_).append ?_
      · exact isBalanced_optionalText _ _
      · exact isBalanced_text _ _
      · exact isBalanced_optionalText _ _
      · exact isBalanced_flatMap (isBalanced_parameterItems _)
      · exact isBalanced_text _ _
      · exact isBalanced_optionalText _ _
      · exact isBalanced_optionalText _ _
      · exact isBalanced_flatMap (isBalanced_parameterItems _)

end

/-! ## Embedded bodies -/

/-- The body that is embedded in the resource of an object. -/
def embeddedBody? (substitution : Substitution) : DdlObject → Option Text
  | .table _ => none
  | .view definition => some (substitution.apply definition.query)
  | .procedure definition => some (substitution.apply definition.body)

/-- The attribute that the body of an object is written as. -/
def bodyKey : DdlObject → Text
  | .procedure definition =>
      if definition.isJavascript then "procedure_definition" else "statement"
  | _ => "statement"

section

variable (policy : Policy) (objects : List DdlObject)

/-- The resource of an object is made of its parts and its body. -/
theorem mainResource_eq (object : DdlObject) :
    mainResource policy objects object =
      Resource.ofItems (objectResourceKind object)
        (policy.resourceName object.name)
        (objectParts policy object ++
          ((embeddedBody? (bodySubstitution policy objects) object).map
            (Item.heredoc (bodyKey object))).toList) := by
  cases object with
  | table definition =>
      rw [embeddedBody?, Option.map_none, Option.toList_none,
        List.append_nil]
      rfl
  | view definition => rfl
  | procedure definition =>
      change procedureResource policy _ definition = _
      rw [procedureResource, objectResourceKind, objectParts, procedureParts,
        bodyKey]
      split <;> rfl

/-- The block of an object has its parts and, behind them, its body. -/
theorem block_finishedMain (object : DdlObject) :
    (finishedMain policy objects object).block =
      resourceBlock (objectResourceKind object).type
        (policy.resourceName object.name)
        (objectParts policy object ++
          ((embeddedBody? (bodySubstitution policy objects) object).map
            (Item.heredoc (bodyKey object))).toList) := by
  rw [finishedMain, Resource.block_addDependencies, mainResource_eq]
  rfl

/-- A body stands at the end of its block, in front of the last brace. -/
theorem exists_block_mainResource {object : DdlObject} {body : Text}
    (embedded : embeddedBody? (bodySubstitution policy objects) object =
      some body) :
    ∃ front, (mainResource policy objects object).block =
      front ++ (heredoc body ++ '\n' :: closingLine 0) := by
  rw [mainResource_eq, embedded]
  exact exists_resourceBlock_heredoc _ _
    (isBalanced_objectParts policy object) _ body

/-- Dependencies come between a body and the end of its block. -/
theorem exists_content_finishedMain {object : DdlObject} {body : Text}
    (embedded : embeddedBody? (bodySubstitution policy objects) object =
      some body) :
    ∃ front, (finishedMain policy objects object).content =
      front ++ (heredoc body ++ '\n' ::
        ofLines (closingLines
          (finishedMain policy objects object).dependencies)) := by
  obtain ⟨front, ending⟩ := exists_block_mainResource policy objects embedded
  have block : (finishedMain policy objects object).block =
      front ++ (heredoc body ++ ['\n']) ++ closingLine 0 := by
    rw [finishedMain, Resource.block_addDependencies, ending]
    simp only [List.append_assoc, List.singleton_append]
  refine ⟨front, ?_⟩
  rw [content_eq_append block]
  simp only [List.append_assoc, List.singleton_append]

end

/-! ## Where bodies end -/

/--
A line of a written body is the marker exactly where the body has both
markers on lines of their own, and every other body is read back whole,
whatever stands behind it.  In the resource of a view or a procedure this is
the list of dependencies and the end of the block.
-/
theorem heredoc_ends_unless_both_markers (body : Text) :
    heredoc body = ofLines (heredocStart body :: writtenLines body) ++
        heredocEnd body ∧
      (∀ line ∈ writtenLines body, '\n' ∉ line) ∧
      ((∃ line ∈ writtenLines body, trim line = marker (bodyLines body)) ↔
        HoldsBothMarkers body) ∧
      (∀ rest, readHeredoc? (heredoc body ++ '\n' :: rest) =
          some (writtenLines body, piecesAt (· == '\n') rest) ↔
        ¬ HoldsBothMarkers body) ∧
      ∀ policy objects object,
        embeddedBody? (bodySubstitution policy objects) object = some body →
        ∃ front, (finishedMain policy objects object).content =
          front ++ (heredoc body ++ '\n' ::
            ofLines (closingLines
              (finishedMain policy objects object).dependencies)) := by
  refine ⟨heredoc_eq body, fun line => not_feed_of_mem_writtenLines,
    exists_marker_line_iff body, ?_, ?_⟩
  · intro rest
    rw [readHeredoc?_heredoc, ← exists_marker_line_iff]
    simp only [not_exists, not_and, ne_eq]
  · intro policy objects object embedded
    exact exists_content_finishedMain policy objects embedded

/-- A body of the two markers ends behind its first line when it is read. -/
theorem heredoc_ends_early_between_markers :
    let body : Text := "EOT\nEOSQL"
    (∃ line ∈ writtenLines body, trim line = marker (bodyLines body)) ∧
      readHeredoc? (heredoc body ++ ['\n']) =
        some (["    EOT".toList], ["  EOSQL".toList, []]) := by
  decide

end Snowform.Terraform
