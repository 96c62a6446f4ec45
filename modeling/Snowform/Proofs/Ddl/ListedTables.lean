import Snowform.Proofs.Ddl.QuotedLists
import Snowform.Proofs.Ddl.QuotedStatements
import Snowform.Proofs.Ddl.TableReading

/-!
# Tables with quoted columns

The columns of a table and those that its keys and its clustering keys speak
of are given as lists of names between double quotes.  The table is read with
the same names, whatever characters they have.
-/

namespace Snowform

open Text Lexical

/-- A statement that is a phrase is a script by itself. -/
theorem Script.read_of_isPhrase {text : Text} {first last : Char}
    {kind : ObjectKind} {object : DdlObject} {notes : List Note}
    (phrase : IsPhrase text) (starts : text.head? = some first)
    (ends : text.getLast? = some last)
    (notBlank : isBlank first = false ∧ isBlank last = false)
    (kindOf : [ObjectKind.table, .view, .procedure].find?
      (fun object => creates object text) = some kind)
    (result : DdlObject.read kind text = .ok (object, notes)) :
    Script.read text = .ok { objects := [object], notes := notes } := by
  have known : DdlObject.kindOf? text = some kind := by
    rw [DdlObject.kindOf?, phrase.stripComments_eq, kindOf]
  exact Script.read_of_single phrase.statementTexts_eq
    (trim_of_ends starts ends notBlank) known result

/-- The cells of a script come from the script. -/
theorem sourceOf_cells (script : Text) : sourceOf (cells script) = .ok script := by
  rw [sourceOf, source?_cells]

/-- The source of all cells of a script is the script. -/
theorem readSource_cells (script : Text) :
    readSource (cells script) = .ok script := by
  rw [readSource, sourceOf_cells]
  rfl

section

variable (others : List Cell)

theorem skipBlanks_opening :
    skipBlanks (.plain ' ' :: .plain '(' :: others) = .plain '(' :: others :=
  rfl

theorem startsWith_opening :
    startsWith (· == '(') (Cell.plain '(' :: others) = true :=
  rfl

end

/-! ## Lists -/

/-- Names that a list can be written of: at least one, and none of them empty. -/
structure NameList where
  names : List Text
  nonempty : names ≠ []
  filled : ∀ name ∈ names, name ≠ []

/-- The names between double quotes. -/
def NameList.text (list : NameList) : Text :=
  listed [] list.names

namespace NameList

variable (list : NameList)

theorem isPart_text : IsPart list.text :=
  isPart_listed (by decide) _

/-- A list of quoted names opens and closes no parenthesis of code. -/
theorem isBalanced_cells_text : IsBalanced (cells list.text) :=
  isBalanced_cells_listed (by decide) (by decide) _

/-- Names and the commas between them show no equals sign. -/
theorem shown_ne_equals : ∀ cell ∈ cells list.text, shown cell ≠ '=' := by
  have parts : ∀ entry ∈ list.names.map fun name => quotedName name ++ [],
      IsPart entry :=
    List.forall_mem_map.mpr fun name _ => isPart_named name (by decide)
  rw [text, listed, cells_intercalate parts]
  refine intercalate_induction
    (motive := fun masked : List Cell => ∀ cell ∈ masked, shown cell ≠ '=')
    (List.forall_mem_nil _) ?_ (by decide) ?_
  · exact fun _ _ first second => List.forall_mem_append.mpr ⟨first, second⟩
  · intro masked member cell inside
    obtain ⟨entry, known, rfl⟩ := List.mem_map.mp member
    obtain ⟨name, -, rfl⟩ := List.mem_map.mp known
    rw [List.append_nil, cells_quotedName] at inside
    rcases shown_of_mem_quotedRegion inside with same | same | ⟨same, -⟩ <;>
      rw [same] <;> decide

end NameList

/-! ## Keys -/

/-- An entry of a column list that is a primary key or says what is unique. -/
structure ListedKey where
  kind : ConstraintKind
  isKey : kind = .primaryKey ∨ kind = .unique
  columns : NameList

namespace ListedKey

def entry (key : ListedKey) : Text :=
  enclosed (key.kind.keyword ++ [' ']) key.columns.text

/-- What the entry says. -/
def terms (key : ListedKey) : ConstraintTerms where
  kind := key.kind
  columns := key.columns.names

/-- The entry as it is read, which gives the constraint no name. -/
def draft (key : ListedKey) : DraftConstraint :=
  { key.terms with name := none }

variable (key : ListedKey)

theorem isStill_keyword : IsStill (key.kind.keyword ++ [' ']) := by
  rcases key.isKey with same | same <;> rw [same] <;> decide

theorem isPart_entry : IsPart key.entry :=
  isPart_enclosed key.isStill_keyword key.columns.isPart_text

theorem isBalanced_cells_entry : IsBalanced (cells key.entry) := by
  have plain : IsWithout ['\'', '"', '(', ')'] (key.kind.keyword ++ [' ']) := by
    rcases key.isKey with same | same <;> rw [same] <;> decide
  exact isBalanced_cells_enclosed key.isStill_keyword plain
    key.columns.isPart_text key.columns.isBalanced_cells_text

/-- An entry starts with a keyword and ends with a parenthesis. -/
theorem trim_entry : trim key.entry = key.entry := by
  have last : key.entry.getLast? = some ')' := getLast?_enclosed _ _
  rcases key.isKey with same | same
  · have first : key.entry.head? = some 'P' := by rw [entry, same]; rfl
    exact trim_of_ends first last (by decide)
  · have first : key.entry.head? = some 'U' := by rw [entry, same]; rfl
    exact trim_of_ends first last (by decide)

/-- A key stands in a list as one entry. -/
theorem isEntry_entry : IsEntry key.entry where
  undivided := by
    have keyword : IsUndivided 0 (key.kind.keyword ++ [' ']) := by
      apply isUndivided_of_isWithout
      rcases key.isKey with same | same <;> rw [same] <;> decide
    have list : IsUndivided 1 key.columns.text :=
      isUndivided_listed (by decide) _
    exact keyword.append (isUndivided_parenthesised list)
  trims := key.trim_entry
  nonempty := List.append_ne_nil_of_right_ne_nil _ (List.cons_ne_nil _ _)

/-- An entry of a key starts with a word of constraints. -/
theorem isConstraintEntry_entry : isConstraintEntry key.entry = true := by
  rcases key.isKey with same | same <;> rw [entry, same] <;> rfl

/-- A key without a name is not read with one. -/
theorem readConstraintName_entry :
    readConstraintName key.entry = (none, key.entry) := by
  rcases key.isKey with same | same <;> rw [entry, same] <;> rfl

/-- The kind of a key is told from its first words, and its list is left. -/
theorem readConstraintKind?_entry :
    readConstraintKind? key.entry =
      some (key.kind, '(' :: (key.columns.text ++ [')'])) := by
  rcases key.isKey with same | same <;> rw [entry, same] <;> rfl

/-- A key is read back from its entry. -/
theorem readConstraint?_entry :
    readConstraint? key.entry = .ok (some key.draft) := by
  have list : parenthesised? ('(' :: (key.columns.text ++ [')'])) =
      some (key.columns.text, []) :=
    (isBalanced_listed (by decide) _).parenthesised?_eq rfl rfl []
  have columns : identifierList key.columns.text = key.columns.names :=
    identifierList_listed key.columns.filled
  have said : ConstraintTerms.ofList key.kind key.columns.text =
      key.terms := by
    rcases key.isKey with same | same <;>
      simp only [ConstraintTerms.ofList, terms, same, columns]
  have other : key.terms.kind ≠ .foreignKey := by
    rcases key.isKey with same | same <;> simp [terms, same]
  unfold readConstraint?
  rw [key.trim_entry, key.readConstraintName_entry]
  simp only [key.readConstraintKind?_entry, list, said, bind, Option.bind,
    pure, if_neg other]
  rfl

end ListedKey

/-! ## Column lists -/

/-- What a table is written of. -/
structure ListedTable where
  columns : NameList
  keys : List ListedKey := []
  clusterBy : Option NameList := none

namespace ListedTable

/-- The columns, each with its type, and the keys behind them. -/
def entries (table : ListedTable) : List Text :=
  (table.columns.names.map fun name => quotedName name ++ typed) ++
    table.keys.map ListedKey.entry

def list (table : ListedTable) : Text :=
  (", " : Text).intercalate table.entries

/-- What holds of the columns and of the keys holds of every entry. -/
theorem forall_mem_entries {table : ListedTable} {holds : Text → Prop}
    (columns : ∀ name : Text, holds (quotedName name ++ typed))
    (keys : ∀ key : ListedKey, holds key.entry) :
    ∀ entry ∈ table.entries, holds entry := by
  refine List.forall_mem_append.mpr ⟨?_, ?_⟩
  · exact List.forall_mem_map.mpr fun name _ => columns name
  · exact List.forall_mem_map.mpr fun key _ => keys key

variable (table : ListedTable)

theorem isPart_list : IsPart table.list :=
  isPart_intercalate
    (forall_mem_entries (isPart_named · isTrailing_typed.still)
      ListedKey.isPart_entry)

/-- A whole list of entries closes what it opens. -/
theorem isBalanced_cells_list : IsBalanced (cells table.list) := by
  have still := isTrailing_typed.still
  refine isBalanced_cells_intercalate (forall_mem_entries ?_ ?_)
  · exact fun name => ⟨isPart_named name still,
      isBalanced_cells_named (by decide) name still⟩
  · exact fun key => ⟨key.isPart_entry, key.isBalanced_cells_entry⟩

/-- A list of entries is cut into exactly its entries. -/
theorem splitCommas_list : splitCommas table.list = table.entries :=
  splitCommas_intercalate
    (forall_mem_entries (isEntry_named isTrailing_typed)
      ListedKey.isEntry_entry)

end ListedTable

/-! ### Reading the entries -/

namespace Table.Contents

variable (table : Text) (contents : Contents)

/-- A column is read behind those that are there. -/
theorem readEntry_typed (name : Text) :
    contents.readEntry table (quotedName name ++ typed) =
      .ok { contents with
        columns := contents.columns ++ [typedColumn name] } := by
  have column : isConstraintEntry (quotedName name ++ typed) = false := rfl
  have added : contents.addColumn table { column := typedColumn name } =
      { contents with columns := contents.columns ++ [typedColumn name] } := by
    rw [addColumn, List.map_nil, List.append_nil]
    rfl
  rw [readEntry, column, if_neg Bool.false_ne_true, readColumn, read?_typed]
  exact congrArg Except.ok added

/-- A key is read behind the constraints that are there. -/
theorem readEntry_key (key : ListedKey) :
    contents.readEntry table key.entry =
      .ok (contents.addConstraints table [key.draft]) := by
  rw [readEntry, key.isConstraintEntry_entry, if_pos rfl,
    key.readConstraint?_entry]
  rfl

/-- Columns are read in the order of their entries. -/
theorem foldlM_typed (names : List Text) :
    (names.map fun name => quotedName name ++ typed).foldlM
        (readEntry table) contents =
      .ok { contents with
        columns := contents.columns ++ names.map typedColumn } := by
  induction names generalizing contents with
  | nil =>
      rw [List.map_nil, List.map_nil, List.append_nil]
      rfl
  | cons first others ih =>
      rw [List.map_cons, List.foldlM_cons, readEntry_typed, List.map_cons]
      simp only [bind, Except.bind, ih, List.append_assoc,
        List.singleton_append]

/--
Keys are read in the order of their entries, which is the order that they are
named in.
-/
theorem foldlM_keys (keys : List ListedKey) :
    (keys.map ListedKey.entry).foldlM (readEntry table) contents =
      .ok (contents.addConstraints table (keys.map ListedKey.draft)) := by
  induction keys generalizing contents with
  | nil => rfl
  | cons first others ih =>
      rw [List.map_cons, List.foldlM_cons, readEntry_key]
      exact ih _

/-- Constraints add no column. -/
theorem columns_addConstraints (drafts : List DraftConstraint) :
    (contents.addConstraints table drafts).columns = contents.columns := by
  induction drafts generalizing contents with
  | nil => rfl
  | cons draft others ih => exact ih _

/-- Constraints are named and otherwise kept as they were read. -/
theorem terms_addConstraints (drafts : List DraftConstraint) :
    (contents.addConstraints table drafts).constraints.map
        Constraint.toConstraintTerms =
      contents.constraints.map Constraint.toConstraintTerms ++
        drafts.map DraftConstraint.toConstraintTerms := by
  induction drafts generalizing contents with
  | nil => exact (List.append_nil _).symm
  | cons draft others ih =>
      rw [addConstraints, List.foldl_cons, ← addConstraints, ih,
        List.map_append, List.append_assoc]
      rfl

end Table.Contents

/-- The contents of a table are its columns and its named keys. -/
theorem ListedTable.read_list (table : ListedTable) (name : Text) :
    Table.Contents.read name table.list =
      .ok (Table.Contents.addConstraints name
        { columns := table.columns.names.map typedColumn }
        (table.keys.map ListedKey.draft)) := by
  rw [Table.Contents.read, table.isPart_list.isPhrase.stripComments_eq,
    table.splitCommas_list, entries, List.foldlM_append,
    Table.Contents.foldlM_typed]
  exact Table.Contents.foldlM_keys name _ _

/-! ## Tables -/

namespace ListedTable

/-- The clause that may stand behind a column list. -/
def clustering : Option NameList → Text
  | none => []
  | some keys => enclosed " CLUSTER BY " keys.text

def statement (table : ListedTable) : Text :=
  enclosed "CREATE TABLE t " table.list ++ clustering table.clusterBy

/-- The table that the statement creates. -/
def definition (table : ListedTable) : Table where
  name := { name := "t" }
  columns := table.columns.names.map typedColumn
  constraints :=
    (Table.Contents.addConstraints "t"
      { columns := table.columns.names.map typedColumn }
      (table.keys.map ListedKey.draft)).constraints
  clusterBy := table.clusterBy.map NameList.names

section

variable (clusterBy : Option NameList)

theorem isPhrase_clustering : IsPhrase (clustering clusterBy) := by
  cases clusterBy with
  | none => exact isPhrase_nil
  | some keys => exact (isPart_enclosed (by decide) keys.isPart_text).isPhrase

theorem cells_clustering (keys : NameList) :
    cells (clustering (some keys)) =
      (" CLUSTER BY " : Text).map .plain ++
        .plain '(' :: (cells keys.text ++ [.plain ')']) := by
  have still : IsStill (" CLUSTER BY " : Text) := by decide
  have masked := cells_enclosed_append still keys.isPart_text isPhrase_nil
  rwa [List.append_nil] at masked

/-- A clustering clause has no comment. -/
theorem findComment_clustering :
    findComment (cells (clustering clusterBy)) = .ok none := by
  cases clusterBy with
  | none => rfl
  | some keys =>
      have opens : ∀ cell ∈ (" CLUSTER BY " : Text).map Cell.plain,
          shown cell ≠ '=' := by
        decide
      refine findComment_eq_none ?_
      rw [cells_clustering]
      simp only [List.forall_mem_append, List.forall_mem_cons]
      exact ⟨opens, by decide, keys.shown_ne_equals, by decide⟩

/-- The clustering keys are read back from their clause. -/
theorem readClusterBy_clustering :
    Table.readClusterBy (cells (clustering clusterBy)) =
      .ok (clusterBy.map NameList.names) := by
  cases clusterBy with
  | none => rfl
  | some keys =>
      have inside : parenthesised? (Cell.plain '(' ::
          (cells keys.text ++ [.plain ')'])) = some (cells keys.text, []) :=
        keys.isBalanced_cells_text.parenthesised?_eq rfl rfl []
      have clause : ∀ others : List Cell, findFirst Table.clusterBy? []
          ((" CLUSTER BY " : Text).map Cell.plain ++ .plain '(' :: others) =
            some ([.plain ' '], .plain '(' :: others, others) :=
        fun _ => rfl
      have stripped : stripComments keys.text = keys.text :=
        keys.isPart_text.isPhrase.stripComments_eq
      have read : identifierList keys.text = keys.names :=
        identifierList_listed keys.filled
      have filled : keys.names.isEmpty = false :=
        List.isEmpty_eq_false_iff.mpr keys.nonempty
      rw [cells_clustering, Table.readClusterBy, clause]
      simp only [bind, Option.bind, Except.bind, inside, sourceOf_cells,
        stripped, read, filled]
      rfl

/-- A table with keys and a clustering clause is read back whole. -/
theorem read_statement (table : ListedTable) :
    Table.read table.statement = .ok (table.definition, []) := by
  have masked : cells table.statement =
      ("CREATE TABLE t " : Text).map .plain ++
        .plain '(' :: (cells table.list ++
          .plain ')' :: cells (clustering table.clusterBy)) :=
    cells_enclosed_append (by decide) table.isPart_list
      (isPhrase_clustering table.clusterBy)
  have head : ∀ others : List Cell, readHead? .table
      (("CREATE TABLE t " : Text).map Cell.plain ++ .plain '(' :: others) =
        some ({}, .plain 't' :: .plain ' ' :: .plain '(' :: others) :=
    fun _ => rfl
  have named : ∀ others : List Cell, readName .table
      (.plain 't' :: .plain ' ' :: .plain '(' :: others) =
        .ok ({ name := "t" }, .plain ' ' :: .plain '(' :: others) :=
    fun _ => rfl
  have inside : parenthesised? (Cell.plain '(' :: (cells table.list ++
      .plain ')' :: cells (clustering table.clusterBy))) =
        some (cells table.list, cells (clustering table.clusterBy)) :=
    table.isBalanced_cells_list.parenthesised?_eq rfl rfl _
  unfold Table.read
  simp only [masked, head, Reading.require, bind, Except.bind, named,
    skipBlanks_opening, startsWith_opening, if_true, inside, readSource_cells,
    table.read_list, Reading.ofFault, findComment_clustering,
    readClusterBy_clustering]
  rw [Table.Contents.columns_addConstraints,
    Table.Contents.notes_addConstraints]
  rfl

end

theorem isPhrase_statement (table : ListedTable) :
    IsPhrase table.statement := by
  have still : IsStill ("CREATE TABLE t " : Text) := by decide
  have part := isPart_enclosed still table.isPart_list
  refine part.isPhrase_append _ (isPhrase_clustering table.clusterBy) ?_
  cases table.clusterBy with
  | none => decide
  | some keys =>
      have first : (clustering (some keys)).head? = some ' ' := rfl
      rw [StartsBare, first]
      decide

theorem getLast?_statement (table : ListedTable) :
    table.statement.getLast? = some ')' := by
  rw [statement]
  cases table.clusterBy with
  | none =>
      rw [clustering, List.append_nil]
      exact getLast?_enclosed _ _
  | some keys =>
      rw [clustering, List.getLast?_append, getLast?_enclosed]
      rfl

/-- A script with one such table holds that table and nothing else. -/
theorem read_script (table : ListedTable) :
    Script.read table.statement =
      .ok { objects := [.table table.definition] } := by
  have result : DdlObject.read .table table.statement =
      .ok (.table table.definition, []) := by
    rw [DdlObject.read, table.read_statement]
    rfl
  exact Script.read_of_isPhrase table.isPhrase_statement rfl
    table.getLast?_statement (by decide) rfl result

end ListedTable

end Snowform
