import Snowform.Proofs.Hcl.Outlines
import Snowform.Proofs.Terraform.Bodies

/-!
# Outlines of resources

The outline of a resource is what its items are: first those of the object
itself, then the dependencies and the end of the block.  Where the block has
a body, the outline ends in front of it.
-/

namespace Snowform.Terraform

open Text Hcl

/-! ## Ends of blocks -/

/-- What the end of a block says about dependencies. -/
def dependencyItems (dependencies : List Text) : List Item :=
  if dependencies = [] then
    []
  else
    [Item.raw dependencyKey
      ('[' :: (", " : Text).intercalate dependencies ++ [']'])]

/-- The last lines of a resource say its dependencies and close the block. -/
theorem say_closingLines {dependencies : List Text}
    (all : ∀ target ∈ dependencies, IsListable target) :
    Say (dependencyItems dependencies ++ [.closing])
      (closingLines dependencies) := by
  rw [dependencyItems, closingLines]
  split_ifs with empty
  · exact say_closing 0
  · have line : assignmentLine 1 dependencyKey
        ('[' :: (", " : Text).intercalate dependencies ++ [']']) =
        sectionLine dependencies := by
      rw [assignmentLine, sectionLine]
      simp only [List.append_assoc]
    have whole : '\n' ∉
        '[' :: (", " : Text).intercalate dependencies ++ [']'] :=
      fun feed => not_feed_of_mem_sectionLine all
        (List.mem_append_right _ feed)
    have isKey : IsKey dependencyKey := by decide
    have list := say_assignmentLine isKey whole (by simp) 1
    rw [line] at list
    exact (say_blank.append list).append (say_closing 0)

/-! ## Blocks -/

section

variable {resource : Resource} {kind : ResourceKind} {name : Text}
  {items : List Item}

variable (kind) in
/-- A block is its first line and the lines of its items. -/
theorem exists_lines_block (allowed : IsIdentifierText name)
    (areLines : AreLines items) (balanced : IsBalanced items)
    (others : List Item) :
    ∃ start lines, '\n' ∉ start ∧
      Say (items.filterMap Item.outlined?) lines ∧
      resourceBlock kind.type name (items ++ others) =
        ofLines (start :: lines) ++ writeItems 1 others := by
  have wholeKind : '\n' ∉ kind.type := by
    cases kind <;> decide
  obtain ⟨lines, written, say⟩ :=
    exists_say_writeItems (fun item member => (areLines item member).1) others 1
  refine ⟨blockStart kind.type name, lines,
    not_feed_of_mem_blockStart wholeKind allowed.not_feed_mem, say, ?_⟩
  rw [resourceBlock_eq, written, balanced 1, ofLines_cons, List.append_assoc,
    List.cons_append]

/--
The outline of a resource without a body has its items and its dependencies.
-/
theorem outline_closed (allowed : IsIdentifierText name)
    (areLines : AreLines items) (balanced : IsBalanced items)
    (block : resource.block = resourceBlock kind.type name items)
    (all : ∀ target ∈ resource.dependencies, IsListable target) :
    outline resource.content = items.filterMap Item.outlined? ++
      (dependencyItems resource.dependencies ++ [.closing]) := by
  obtain ⟨start, lines, whole, say, written⟩ :=
    exists_lines_block kind allowed areLines balanced []
  rw [List.append_nil] at written
  rw [content_eq_append (block.trans written), ← ofLines_append,
    List.cons_append]
  exact outline_ofLines whole (say.append (say_closingLines all))

/-- The outline of a resource with a body has its items up to the body. -/
theorem outline_embedded (allowed : IsIdentifierText name)
    (areLines : AreLines items) (balanced : IsBalanced items)
    {key body : Text} (isKey : IsKey key)
    (block : resource.block =
      resourceBlock kind.type name (items ++ [.heredoc key body])) :
    outline resource.content = items.filterMap Item.outlined? := by
  obtain ⟨start, lines, whole, say, written⟩ :=
    exists_lines_block kind allowed areLines balanced
      [.heredoc key body]
  have ending : resource.block = ofLines (start :: lines) ++
      (Item.heredoc key body).write 1 ++ closingLine 0 := by
    rw [block, written, List.append_assoc]
    rfl
  rw [content_eq_append ending, List.append_assoc]
  exact outline_append_heredoc whole say isKey body _

end

/-! ## Resources -/

section

variable (policy : Policy)

/-- A table is outlined by its items. -/
theorem outline_tableResource (table : Table) :
    outline (tableResource policy table).content =
      (tableParts policy table).filterMap Item.outlined? ++ [.closing] :=
  outline_closed (isIdentifierText_resourceName policy _)
    (areLines_tableParts policy table)
    (isBalanced_objectParts policy (.table table)) rfl (List.forall_mem_nil _)

variable (objects : List DdlObject)

theorem isKey_bodyKey (object : DdlObject) : IsKey (bodyKey object) := by
  cases object with
  | table definition => exact (by decide : IsKey "statement")
  | view definition => exact (by decide : IsKey "statement")
  | procedure definition =>
      rw [bodyKey]
      split <;> decide

/-- The outline of an object with a body ends in front of the body. -/
theorem outline_finishedMain {object : DdlObject} {body : Text}
    (embedded : embeddedBody? (bodySubstitution policy objects) object =
      some body) :
    outline (finishedMain policy objects object).content =
      (objectParts policy object).filterMap Item.outlined? := by
  have block : (finishedMain policy objects object).block =
      resourceBlock (objectResourceKind object).type
        (policy.resourceName object.name)
        (objectParts policy object ++ [.heredoc (bodyKey object) body]) := by
    rw [block_finishedMain, embedded]
    rfl
  exact outline_embedded (isIdentifierText_resourceName policy _)
    (areLines_objectParts policy object) (isBalanced_objectParts policy object)
    (isKey_bodyKey object) block

/-- A constraint depends on addresses that can be listed on a line. -/
theorem isListable_of_mem_finishedConstraint {table : Table}
    {constraint : Constraint} {target : Text}
    (member : target ∈
      (finishedConstraint policy objects table constraint).dependencies) :
    IsListable target := by
  rw [finishedConstraint, Resource.mem_dependencies_addDependencies,
    dependencies_constraintResource, List.mem_singleton] at member
  rcases member with rfl | ⟨added, -⟩
  · exact isListable_address .table (isIdentifierText_resourceName policy _)
  · exact (isMainAddress_of_mem_constraintTargets
      added).isObjectAddress.isListable

theorem block_finishedConstraint (table : Table) (constraint : Constraint) :
    (finishedConstraint policy objects table constraint).block =
      resourceBlock ResourceKind.tableConstraint.type
        (policy.resourceName table.name ++ '_' :: identifier constraint.name)
        (constraintParts policy table.name constraint) := by
  rw [finishedConstraint, Resource.block_addDependencies,
    constraintResource, ← Resource.addDependencies_singleton,
    Resource.block_addDependencies]
  rfl

/-- A constraint is outlined by its items and its dependencies. -/
theorem outline_finishedConstraint (table : Table) (constraint : Constraint) :
    outline (finishedConstraint policy objects table constraint).content =
      (constraintParts policy table.name constraint).filterMap
          Item.outlined? ++
        (dependencyItems
          (finishedConstraint policy objects table constraint).dependencies ++
            [.closing]) := by
  exact outline_closed (isIdentifierText_constraintName policy _ _)
    (areLines_constraintParts policy _ _)
    (isBalanced_constraintParts policy _ _)
    (block_finishedConstraint policy objects table constraint)
    fun target => isListable_of_mem_finishedConstraint policy objects

end

end Snowform.Terraform
