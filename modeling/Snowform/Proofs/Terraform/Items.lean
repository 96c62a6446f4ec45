import Snowform.Proofs.Hcl.Outlines
import Snowform.Proofs.Terraform.Sections

/-!
# Items of resources

Nothing that is written for an object can be read as a list of dependencies:
the attributes have other names, and their values stay on their lines or
stand deeper.
-/

namespace Snowform.Terraform

open Text Hcl

/-! ## Defaults -/

/-- A character in front of the capitals is lower case of itself alone. -/
theorem eq_of_toLower_eq {character mark : Char} (early : mark.toNat < 65)
    (same : character.toLower = mark) : character = mark := by
  by_cases large : 'A'.val ≤ character.val ∧ character.val ≤ 'Z'.val
  · have lower : character.toLower.val =
        character.val + ('a'.val - 'A'.val) :=
      congrArg Char.val (dif_pos large)
    have bounds : 65 ≤ character.val.toNat ∧ character.val.toNat ≤ 90 := large
    have code := congrArg UInt32.toNat lower
    have gap : ('a'.val - 'A'.val).toNat = 32 := rfl
    rw [same, UInt32.toNat_add, gap] at code
    have number : mark.val.toNat = mark.toNat := rfl
    omega
  · have unchanged : character.toLower = character := dif_neg large
    rwa [unchanged] at same

/-- A number consists of digits, a sign and a point. -/
theorem of_mem_isNumber {text : Text}
    (number : ColumnDefault.isNumber text = true) {character : Char}
    (member : character ∈ text) :
    character = '-' ∨ character = '.' ∨ isDecimalDigit character = true := by
  have signed : character = '-' ∨
      character ∈ (dropStart? "-" text).getD text := by
    unfold dropStart?
    split_ifs with starts
    · obtain ⟨rest, rfl⟩ := List.isPrefixOf_iff_prefix.mp starts
      rcases List.mem_append.mp member with sign | inside
      · exact .inl (List.mem_singleton.mp sign)
      · exact .inr (by simpa using inside)
    · exact .inr member
  refine signed.imp_right fun inside => ?_
  unfold ColumnDefault.isNumber at number
  generalize (dropStart? "-" text).getD text = unsigned at inside number
  have digits : ∀ digit ∈ unsigned.takeWhile isDecimalDigit,
      isDecimalDigit digit = true := fun digit => List.mem_takeWhile_imp
  have parts := List.takeWhile_append_dropWhile
    (p := isDecimalDigit) (l := unsigned)
  have behind : unsigned.drop (unsigned.takeWhile isDecimalDigit).length =
      unsigned.dropWhile isDecimalDigit :=
    (congrArg (List.drop _) parts.symm).trans List.drop_left
  simp only [behind, Bool.and_eq_true] at number
  rw [← parts] at inside
  rcases List.mem_append.mp inside with digit | rest
  · exact .inr (digits character digit)
  · obtain ⟨-, pointed⟩ := number
    split at pointed
    next empty =>
      rw [empty] at rest
      cases rest
    next point fraction cut =>
      simp only [Bool.and_eq_true, beq_iff_eq, ColumnDefault.isDigits,
        List.all_eq_true] at pointed
      obtain ⟨rfl, -, all⟩ := pointed
      rw [cut] at rest
      rcases List.mem_cons.mp rest with point | digit
      · exact .inl point
      · exact .inr (all character digit)

/-- No constant holds a line feed, and none starts like a heredoc. -/
theorem not_mem_constant {written literal : Text}
    (constant : ColumnDefault.ofText written = .constant literal) {mark : Char}
    (strange : mark = '\n' ∨ mark = '<') : mark ∉ literal := by
  have early : mark.toNat < 65 ∧ mark.toUpper = mark := by
    rcases strange with rfl | rfl <;> decide
  rw [ColumnDefault.ofText] at constant
  split_ifs at constant with number truth
  · cases constant
    intro inside
    have known := of_mem_isNumber number inside
    rcases strange with rfl | rfl <;> exact absurd known (by decide)
  · cases constant
    intro inside
    obtain ⟨character, member, same⟩ := List.mem_map.mp inside
    rw [eq_of_toLower_eq early.1 same] at member
    have capital : mark.toUpper ∈ asciiUpper (trim written) :=
      List.mem_map_of_mem member
    rw [early.2] at capital
    rw [ColumnDefault.isTruthValue, sameIgnoringCase, sameIgnoringCase,
      Bool.or_eq_true, beq_iff_eq, beq_iff_eq] at truth
    rcases truth with same | same <;> rw [same] at capital <;>
      rcases strange with rfl | rfl <;> exact absurd capital (by decide)

/-- A default stays on its line. -/
theorem not_feed_of_mem_value (written : Text) :
    '\n' ∉ (ColumnDefault.ofText written).value := by
  cases default : ColumnDefault.ofText written with
  | constant literal => exact not_mem_constant default (.inl rfl)
  | expression text => exact not_feed_of_mem_quoted text

/-- A default never starts like a heredoc. -/
theorem head?_value_ne (written : Text) :
    (ColumnDefault.ofText written).value.head? ≠ some '<' := by
  cases default : ColumnDefault.ofText written with
  | constant literal =>
      intro starts
      exact not_mem_constant default (.inr rfl) (List.mem_of_mem_head? starts)
  | expression text =>
      intro starts
      rw [ColumnDefault.value, quoted, List.cons_append, List.head?_cons]
        at starts
      exact absurd starts (by decide)

/-! ## Items -/

/-- Items no one of which could list dependencies. -/
def ArePlain (items : List Item) : Prop :=
  ∀ item ∈ items, item.IsApart dependencyKey

/-- Items that are read back from their lines and list no dependencies. -/
def AreLines (items : List Item) : Prop :=
  ∀ item ∈ items, item.IsReadable ∧ item.IsApart dependencyKey

/-- Items of one line each are plain. -/
theorem AreLines.arePlain {items : List Item} (lines : AreLines items) :
    ArePlain items :=
  fun item member => (lines item member).2

theorem AreLines.append {first second : List Item} (lines : AreLines first)
    (others : AreLines second) : AreLines (first ++ second) :=
  List.forall_mem_append.mpr ⟨lines, others⟩

/-- Items of one form are lines if each of them is one. -/
theorem areLines_map {α : Type} (list : List α) {item : α → Item}
    (lines : ∀ element, (item element).IsReadable ∧
      (item element).IsApart dependencyKey) : AreLines (list.map item) :=
  List.forall_mem_map.mpr fun element _ => lines element

theorem areLines_flatMap {α : Type} (list : List α) {items : α → List Item}
    (lines : ∀ element, AreLines (items element)) :
    AreLines (list.flatMap items) := by
  intro item member
  obtain ⟨element, -, inside⟩ := List.mem_flatMap.mp member
  exact lines element item inside

/--
Values that stay on their line and open no heredoc may be written as they are.
-/
theorem areLines_map_raw {α : Type} (list : List α) {key : Text}
    (other : IsOther dependencyKey key) {value : α → Text}
    (whole : ∀ element, '\n' ∉ value element)
    (noBody : ∀ element, (value element).head? ≠ some '<') :
    AreLines (list.map fun element => Item.raw key (value element)) :=
  areLines_map list fun element =>
    ⟨⟨other.1, whole element, noBody element⟩, other, whole element⟩

/--
A value that stays on its line and opens no heredoc may be written as it is.
-/
theorem areLines_raw {key value : Text} (other : IsOther dependencyKey key)
    (whole : '\n' ∉ value) (noBody : value.head? ≠ some '<') :
    AreLines [Item.raw key value] :=
  areLines_map_raw [()] other (fun _ => whole) fun _ => noBody

theorem areLines_texts {key : Text} (other : IsOther dependencyKey key)
    (values : List Text) : AreLines [Item.texts key values] :=
  List.forall_mem_singleton.mpr ⟨other.1, other⟩

theorem areLines_text {key : Text} (other : IsOther dependencyKey key)
    (value : Text) : AreLines [Item.text key value] :=
  List.forall_mem_singleton.mpr ⟨other.1, other⟩

theorem areLines_optionalText {key : Text} (other : IsOther dependencyKey key)
    (value : Option Text) : AreLines (optionalText key value) :=
  areLines_map value.toList fun _ => ⟨other.1, other⟩

theorem areLines_optionalFlag {key : Text} (other : IsOther dependencyKey key)
    (value : Option Bool) : AreLines (optionalFlag key value) :=
  areLines_map value.toList fun _ => ⟨other.1, other⟩

theorem areLines_flagIf {key : Text} (other : IsOther dependencyKey key)
    (value : Bool) : AreLines (flagIf key value) := by
  rw [flagIf]
  split
  · exact List.forall_mem_singleton.mpr ⟨other.1, other⟩
  · exact List.forall_mem_nil _

/-- A block of lines inside of another block is made of lines. -/
theorem AreLines.nested {items : List Item} (lines : AreLines items)
    {name : Text} (other : IsOther dependencyKey name) :
    AreLines (nested name items) := by
  refine List.forall_mem_cons.mpr ⟨⟨other.1, other⟩, lines.append ?_⟩
  exact List.forall_mem_singleton.mpr ⟨trivial, trivial⟩

/-- A heredoc is plain, whatever lines its body has. -/
theorem arePlain_heredoc {key : Text} (other : IsOther dependencyKey key)
    (body : Text) : ArePlain [Item.heredoc key body] :=
  List.forall_mem_singleton.mpr other

/-- A resource of plain items is plain. -/
theorem isPlain_ofItems (kind : ResourceKind) {name : Text}
    (allowed : IsIdentifierText name) {items : List Item}
    (plain : ArePlain items) :
    (Resource.ofItems kind name items).IsPlain := by
  have wholeKind : '\n' ∉ kind.type := by
    cases kind <;> decide
  exact hasLines_resourceBlock (by decide) plain wholeKind
    allowed.not_feed_mem

/-! ## Parts of objects -/

section

variable (policy : Policy)

/-- The items of a table. -/
def tableParts (table : Table) : List Item :=
  policy.location table.name ++ optionalText "comment" table.comment ++
    table.clusterBy.toList.map (Item.texts "cluster_by") ++
    table.columns.flatMap columnItems

/-- The items of a constraint. -/
def constraintParts (owner : QualifiedName) (constraint : Constraint) :
    List Item :=
  [Item.text "name" constraint.name,
    Item.text "type" constraint.kind.keyword,
    Item.raw "table_id" (tableReference (policy.resourceName owner)),
    Item.texts "columns" constraint.columns] ++
    optionalFlag "rely" constraint.flags.rely ++
    optionalFlag "enable" constraint.flags.enable ++
    optionalFlag "deferrable" constraint.flags.deferrable ++
    constraint.references.toList.flatMap (targetItems policy owner)

/-- The items of a view but its query. -/
def viewParts (view : View) : List Item :=
  policy.location view.name ++ optionalText "comment" view.comment ++
    flagIf "is_secure" view.secure ++ flagIf "or_replace" view.orReplace ++
    (view.columns.getD []).flatMap viewColumnItems

/-- The items of a procedure but its body. -/
def procedureParts (procedure : Procedure) : List Item :=
  if procedure.isJavascript then
    policy.location procedure.name ++
      optionalText "return_type" procedure.returnType ++
      [Item.text "execute_as" (procedure.executeAs.getD .owner).keyword] ++
      optionalText "comment" procedure.comment ++
      procedure.parameters.flatMap (parameterItems javascriptArgumentKeys)
  else
    policy.location procedure.name ++
      [Item.text "language" (upper procedure.language)] ++
      optionalText "return_type" procedure.returnType ++
      optionalText "comment" procedure.comment ++
      procedure.parameters.flatMap (parameterItems argumentKeys)

/-- The reference to a schema opens no heredoc. -/
theorem head?_schemaReference_ne (schema : Text) :
    (policy.schemaReference schema).head? ≠ some '<' := by
  have word : ("snowflake_schema." : Text) =
      's' :: ("nowflake_schema." : Text) := by
    decide
  unfold Policy.schemaReference
  rw [word]
  simp only [List.cons_append, List.head?_cons]
  decide

/-- The reference to a table opens no heredoc. -/
theorem head?_tableReference_ne (resourceName : Text) :
    (tableReference resourceName).head? ≠ some '<' := by
  have word : ResourceKind.table.type = 's' :: ("nowflake_table" : Text) := by
    decide
  unfold tableReference ResourceKind.address
  rw [word]
  simp only [List.cons_append, List.head?_cons]
  decide

/-- The names of a place are written line by line. -/
theorem areLines_location (name : QualifiedName) :
    AreLines (policy.location name) := by
  have database : '\n' ∉ databaseReference := by decide
  have around : '\n' ∉ ("snowflake_schema." : Text) ∧
      '\n' ∉ (".name" : Text) := by
    decide
  have schema : ∀ schema, '\n' ∉ policy.schemaReference schema := by
    intro schema
    unfold Policy.schemaReference
    have name := isIdentifierText_schemaIdentifier policy.schemaSuffixes
      schema
    simp only [List.mem_append, not_or]
    exact ⟨⟨around.1, name.not_feed_mem⟩, around.2⟩
  have noBody : databaseReference.head? ≠ some '<' := by decide
  have keys : IsOther dependencyKey "database" ∧
      IsOther dependencyKey "schema" := by
    decide
  refine ((areLines_text (by decide) _).append ?_).append ?_
  · exact areLines_map_raw _ keys.1 (fun _ => database) fun _ => noBody
  · exact areLines_map_raw _ keys.2 schema (head?_schemaReference_ne policy)

theorem areLines_defaultItems (written : Text) :
    AreLines (defaultItems written) := by
  have other : IsOther dependencyKey (ColumnDefault.ofText written).key := by
    cases ColumnDefault.ofText written
    · exact (by decide : IsOther dependencyKey "constant")
    · exact (by decide : IsOther dependencyKey "expression")
  refine AreLines.nested ?_ (by decide)
  exact areLines_raw other (not_feed_of_mem_value written)
    (head?_value_ne written)

/-- A column is written line by line, whatever its texts hold. -/
theorem areLines_columnItems (column : Column) :
    AreLines (columnItems column) := by
  have nullable : IsOther dependencyKey "nullable" := by decide
  refine AreLines.nested ?_ (by decide)
  refine (((AreLines.append ?_ ?_).append ?_).append ?_)
  · exact (areLines_text (by decide) _).append (areLines_text (by decide) _)
  · split
    · exact List.forall_mem_nil _
    · exact List.forall_mem_singleton.mpr ⟨nullable.1, nullable⟩
  · exact areLines_flatMap _ areLines_defaultItems
  · exact areLines_optionalText (by decide) _

/-- A table is written line by line. -/
theorem areLines_tableParts (table : Table) :
    AreLines (tableParts policy table) := by
  have clusterBy : IsOther dependencyKey "cluster_by" := by decide
  refine (((areLines_location policy _).append ?_).append ?_).append ?_
  · exact areLines_optionalText (by decide) _
  · exact areLines_map _ fun _ => ⟨clusterBy.1, clusterBy⟩
  · exact areLines_flatMap _ areLines_columnItems

theorem areLines_tableReference (name : QualifiedName) :
    AreLines [Item.raw "table_id"
      (tableReference (policy.resourceName name))] := by
  have ending : '\n' ∉ (".fully_qualified_name" : Text) := by decide
  have address := isListable_address .table
    (isIdentifierText_resourceName policy name)
  refine areLines_raw (by decide) ?_ (head?_tableReference_ne _)
  unfold tableReference
  rw [List.mem_append, not_or]
  refine ⟨fun feed => ?_, ending⟩
  exact absurd (address '\n' feed).1 (by decide)

/-- A referenced table is written line by line. -/
theorem areLines_targetItems (owner : QualifiedName)
    (target : ForeignKeyTarget) :
    AreLines (targetItems policy owner target) := by
  have reference := areLines_tableReference policy (targetName owner target)
  refine (AreLines.nested ?_ (by decide)).nested (by decide)
  refine List.forall_mem_cons.mpr
    ⟨reference _ List.mem_cons_self, ?_⟩
  split
  · exact List.forall_mem_nil _
  · exact areLines_texts (by decide) _

/-- A constraint is written line by line. -/
theorem areLines_constraintParts (owner : QualifiedName)
    (constraint : Constraint) :
    AreLines (constraintParts policy owner constraint) := by
  refine (((AreLines.append ?_ ?_).append ?_).append ?_).append ?_
  · exact (areLines_text (by decide) _).append
      ((areLines_text (by decide) _).append
        ((areLines_tableReference policy _).append
          (areLines_texts (by decide) _)))
  · exact areLines_optionalFlag (by decide) _
  · exact areLines_optionalFlag (by decide) _
  · exact areLines_optionalFlag (by decide) _
  · exact areLines_flatMap _ (areLines_targetItems policy owner)

/-- All of a view but its query is written line by line. -/
theorem areLines_viewParts (view : View) :
    AreLines (viewParts policy view) := by
  refine ((((areLines_location policy _).append ?_).append ?_).append
    ?_).append ?_
  · exact areLines_optionalText (by decide) _
  · exact areLines_flagIf (by decide) _
  · exact areLines_flagIf (by decide) _
  · exact areLines_flatMap _ fun name =>
      (areLines_text (by decide) name).nested (by decide)

/-- A parameter is written line by line. -/
theorem areLines_parameterItems {keys : ParameterKeys}
    (others : ∀ key ∈ [keys.block, keys.name, keys.dataType,
      keys.defaultValue], IsOther dependencyKey key) (parameter : Parameter) :
    AreLines (parameterItems keys parameter) := by
  simp only [List.forall_mem_cons] at others
  obtain ⟨block, name, dataType, defaultValue, -⟩ := others
  refine AreLines.nested (AreLines.append ?_ ?_) block
  · exact (areLines_text name _).append (areLines_text dataType _)
  · exact areLines_optionalText defaultValue _

/-- All of a procedure but its body is written line by line. -/
theorem areLines_procedureParts (procedure : Procedure) :
    AreLines (procedureParts policy procedure) := by
  rw [procedureParts]
  split
  · refine ((((areLines_location policy _).append ?_).append ?_).append
      ?_).append ?_
    · exact areLines_optionalText (by decide) _
    · exact areLines_text (by decide) _
    · exact areLines_optionalText (by decide) _
    · exact areLines_flatMap _ (areLines_parameterItems (by decide))
  · refine ((((areLines_location policy _).append ?_).append ?_).append
      ?_).append ?_
    · exact areLines_text (by decide) _
    · exact areLines_optionalText (by decide) _
    · exact areLines_optionalText (by decide) _
    · exact areLines_flatMap _ (areLines_parameterItems (by decide))

/-! ## Resources of objects -/

/-- No text of a table looks like a section of dependencies. -/
theorem isPlain_tableResource (table : Table) :
    (tableResource policy table).IsPlain :=
  isPlain_ofItems _ (isIdentifierText_resourceName policy _)
    (areLines_tableParts policy table).arePlain

/-- The name of the resource of a constraint. -/
theorem isIdentifierText_constraintName (owner : QualifiedName)
    (name : Text) :
    IsIdentifierText (policy.resourceName owner ++ '_' :: identifier name) := by
  refine (isIdentifierText_resourceName policy owner).append ?_
  refine List.forall_mem_cons.mpr ⟨by decide, ?_⟩
  exact isIdentifierText_identifier name

/-- No text of a constraint looks like a section of dependencies. -/
theorem isPlain_constraintResource (owner : QualifiedName)
    (constraint : Constraint) :
    (constraintResource policy owner constraint).IsPlain := by
  rw [constraintResource, ← Resource.addDependencies_singleton,
    Resource.IsPlain, Resource.block_addDependencies]
  exact isPlain_ofItems _ (isIdentifierText_constraintName policy owner _)
    (areLines_constraintParts policy owner constraint).arePlain

variable (substitution : Substitution)

/--
No text of a view looks like a section of dependencies, its query included.
-/
theorem isPlain_viewResource (view : View) :
    (viewResource policy substitution view).IsPlain :=
  isPlain_ofItems _ (isIdentifierText_resourceName policy _)
    (List.forall_mem_append.mpr ⟨(areLines_viewParts policy view).arePlain,
      arePlain_heredoc (by decide) _⟩)

/--
No text of a procedure looks like a section of dependencies, its body included.
-/
theorem isPlain_procedureResource (procedure : Procedure) :
    (procedureResource policy substitution procedure).IsPlain := by
  have named := isIdentifierText_resourceName policy procedure.name
  have parts := (areLines_procedureParts policy procedure).arePlain
  rw [procedureParts] at parts
  unfold procedureResource
  split
  next javascript =>
    rw [if_pos javascript] at parts
    exact isPlain_ofItems _ named (List.forall_mem_append.mpr
      ⟨parts, arePlain_heredoc (by decide) _⟩)
  next other =>
    rw [if_neg other] at parts
    exact isPlain_ofItems _ named (List.forall_mem_append.mpr
      ⟨parts, arePlain_heredoc (by decide) _⟩)

end

end Snowform.Terraform
