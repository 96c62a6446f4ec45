import Snowform.Ddl.Script
import Snowform.Proofs.Ddl.Clauses
import Snowform.Proofs.Ddl.Concatenation
import Snowform.Proofs.Ddl.QuotedNames
import Mathlib.Data.Bool.AllAny

/-!
# Statements with quoted names

A table and a view that selects from it are created under any names that can
be written between double quotes.  Each statement is read by itself to one
object, and statements of this kind stand behind each other without seeing
each other.
-/

namespace Snowform

open Text Lexical

/-! ## A table -/

/-- A statement that creates a table with one column. -/
def tableStatement (schema name : Text) : Text :=
  ("CREATE TABLE " : Text) ++ dottedNames schema name ++ (" (id INT)" : Text)

/-- The table that the statement creates. -/
def declaredTable (schema name : Text) : Table where
  name := { schema := some schema, name := name }
  columns := [{ name := "id", dataType := "INT" }]

theorem tableStatement_eq_spell (schema name : Text) :
    tableStatement schema name =
      spell [("CREATE TABLE ", schema), (['.'], name)] " (id INT)" := by
  unfold tableStatement dottedNames
  simp only [spell, List.append_assoc, List.cons_append, List.nil_append]

/-- The statement of a table is spelled with code around its two names. -/
theorem isSpelling_table (schema name : Text) :
    IsSpelling [("CREATE TABLE ", schema), (['.'], name)] " (id INT)" := by
  have codes : ∀ code ∈ (["CREATE TABLE ", "."] : List Text),
      code ≠ [] ∧ IsQuiet code := by
    decide
  exact ⟨codes, by decide⟩

/-- In the masked statement of a table only the names are covered. -/
theorem cells_tableStatement (schema name : Text) :
    cells (tableStatement schema name) =
      ("CREATE TABLE " : Text).map .plain ++
        (dottedCells schema name ++ (" (id INT)" : Text).map .plain) := by
  rw [tableStatement_eq_spell, cells_spell (isSpelling_table schema name)]
  unfold dottedCells
  simp only [spelledCells, List.append_assoc, List.cons_append, List.map_cons,
    List.map_nil, List.nil_append]

/-- The statement of a table is told by its first words. -/
theorem kindOf?_tableStatement (schema name : Text) :
    DdlObject.kindOf? (tableStatement schema name) = some .table := by
  have stripped : stripComments (tableStatement schema name) =
      tableStatement schema name := by
    rw [tableStatement_eq_spell,
      stripComments_spell (isSpelling_table schema name)]
  have table : ∀ others : Text,
      creates .table (("CREATE TABLE " : Text) ++ others) = true :=
    fun _ => rfl
  rw [DdlObject.kindOf?, stripped, List.find?_cons_of_pos]
  unfold tableStatement
  rw [List.append_assoc]
  exact table _

theorem readHead?_table (others : List Cell) :
    readHead? .table
        (("CREATE TABLE " : Text).map .plain ++ Cell.plain '"' :: others) =
      some ({}, .plain '"' :: others) := rfl

/--
A table in a schema is read back from its statement, whatever quoted names it
has.
-/
theorem read_tableStatement {schema name : Text}
    (noFeed : '\n' ∉ schema ∧ '\n' ∉ name) (nonempty : name ≠ []) :
    Table.read (tableStatement schema name) =
      .ok (declaredTable schema name, []) := by
  have ends : startsWith endsName
      ((" (id INT)" : Text).map Cell.plain) = true := by
    decide
  have named := readName_dottedCells .table noFeed nonempty ends
  have head : readHead? .table (cells (tableStatement schema name)) =
      some ({}, dottedCells schema name ++
        (" (id INT)" : Text).map Cell.plain) := by
    obtain ⟨others, starts⟩ := dottedCells_eq_cons schema name
    rw [cells_tableStatement, starts]
    exact readHead?_table _
  unfold Table.read
  simp only [head, Reading.require, bind, Except.bind, named]
  rfl

/-! ## A view -/

/-- A query that selects everything from one table. -/
def selection (schema name : Text) : Text :=
  ("SELECT * FROM " : Text) ++ dottedNames schema name

/-- A statement that creates a view of everything in one table. -/
def viewStatement (schema view name : Text) : Text :=
  ("CREATE VIEW " : Text) ++ dottedNames schema view ++ (" AS " : Text) ++
    selection schema name

/-- The view that the statement creates. -/
def declaredView (schema view name : Text) : View where
  name := { schema := some schema, name := view }
  query := selection schema name ++ [';']

theorem viewStatement_eq_spell (schema view name : Text) :
    viewStatement schema view name =
      spell [("CREATE VIEW ", schema), (['.'], view),
        (" AS SELECT * FROM ", schema), (['.'], name)] [] := by
  have keywords : (" AS SELECT * FROM " : Text) =
      (" AS " : Text) ++ ("SELECT * FROM " : Text) := by
    decide
  unfold viewStatement selection dottedNames
  rw [keywords]
  simp only [spell, List.append_assoc, List.cons_append, List.nil_append,
    List.append_nil]

/-- The statement of a view is spelled with code around its four names. -/
theorem isSpelling_view (schema view name : Text) :
    IsSpelling [("CREATE VIEW ", schema), (['.'], view),
      (" AS SELECT * FROM ", schema), (['.'], name)] [] := by
  have codes : ∀ code ∈ (["CREATE VIEW ", ".", " AS SELECT * FROM ", "."] :
      List Text), code ≠ [] ∧ IsQuiet code := by
    decide
  exact ⟨codes, by decide⟩

/-- What is seen of the view behind its name. -/
def selectionCells (schema name : Text) : List Cell :=
  ("AS SELECT * FROM " : Text).map .plain ++ dottedCells schema name

/-- In the masked statement of a view only the names are covered. -/
theorem cells_viewStatement (schema view name : Text) :
    cells (viewStatement schema view name) =
      ("CREATE VIEW " : Text).map .plain ++
        (dottedCells schema view ++
          .plain ' ' :: selectionCells schema name) := by
  have blank : (" AS SELECT * FROM " : Text) =
      ' ' :: ("AS SELECT * FROM " : Text) := by
    decide
  rw [viewStatement_eq_spell, cells_spell (isSpelling_view schema view name),
    blank]
  unfold selectionCells dottedCells
  simp only [spelledCells, List.append_assoc, List.cons_append, List.map_cons,
    List.map_nil, List.nil_append, List.append_nil]

theorem kindOf?_viewStatement (schema view name : Text) :
    DdlObject.kindOf? (viewStatement schema view name) = some .view := by
  have stripped : stripComments (viewStatement schema view name) =
      viewStatement schema view name := by
    rw [viewStatement_eq_spell,
      stripComments_spell (isSpelling_view schema view name)]
  have noTable : ∀ others : Text,
      creates .table (("CREATE VIEW " : Text) ++ others) = false :=
    fun _ => rfl
  have create : ∀ others : Text,
      creates .view (("CREATE VIEW " : Text) ++ others) = true :=
    fun _ => rfl
  rw [DdlObject.kindOf?, stripped, List.find?_cons_of_neg,
    List.find?_cons_of_pos]
  · unfold viewStatement
    rw [List.append_assoc, List.append_assoc]
    exact create _
  · unfold viewStatement
    rw [List.append_assoc, List.append_assoc, noTable]
    exact Bool.false_ne_true

theorem readHead?_view (others : List Cell) :
    readHead? .view
        (("CREATE VIEW " : Text).map .plain ++ Cell.plain '"' :: others) =
      some ({}, .plain '"' :: others) := rfl

/-- There is no comment in a name. -/
theorem findComment_dottedCells {schema name : Text}
    (noFeed : '\n' ∉ schema ∧ '\n' ∉ name) :
    findComment (dottedCells schema name ++ [.plain ' ']) = .ok none := by
  refine findComment_eq_none fun cell member => ?_
  have other : '=' ∉ ['"', '_', '.'] := by decide
  rcases List.mem_append.mp member with named | blank
  · exact fun equals => other (equals ▸ shown_of_mem_dottedCells noFeed named)
  · rw [List.mem_singleton.mp blank]
    decide

/-- A name in two parts ends with the quote of the second part. -/
theorem dottedCells_eq_concat (schema name : Text) :
    ∃ others, dottedCells schema name = others ++ [.plain '"'] := by
  refine ⟨(quotedRegion schema).cells ++ .plain '.' :: .plain '"' ::
    (doubled name).flatMap (veil '_'), ?_⟩
  rw [dottedCells, cells_quotedRegion name, List.append_assoc]
  rfl

theorem getLast?_selection (schema name : Text) :
    (selection schema name).getLast? = some '"' := by
  unfold selection
  rw [List.getLast?_append, getLast?_dottedNames]
  rfl

/-- A selection ends with a quote, so only the blank in front of it goes. -/
theorem trim_selection (schema name : Text) :
    trim (' ' :: selection schema name) = selection schema name := by
  rw [trim_cons_blank]
  exact trim_of_ends rfl (getLast?_selection schema name) (by decide)

/-- What is seen of the query behind its keyword. -/
def queryCells (schema name : Text) : List Cell :=
  (" SELECT * FROM " : Text).map .plain ++ dottedCells schema name

/-- A query that ends with a quote has no final blanks. -/
theorem dropFinalBlanks_queryCells (schema name : Text) :
    dropFinalBlanks (queryCells schema name) = queryCells schema name := by
  obtain ⟨others, ending⟩ := dottedCells_eq_concat schema name
  unfold queryCells
  rw [ending, ← List.append_assoc]
  exact dropEndWhile_concat _ _ _

/-- The query of a view is read from its cells as it is written. -/
theorem readSource_queryCells (schema name : Text) :
    readSource (queryCells schema name) = .ok (' ' :: selection schema name) := by
  have whole := source?_append (source?_map_plain " SELECT * FROM ")
    (source?_dottedCells schema name)
  have keywords : (" SELECT * FROM " : Text) =
      ' ' :: ("SELECT * FROM " : Text) := by
    decide
  unfold readSource sourceOf queryCells
  rw [whole, keywords]
  rfl

/--
A view on a table is read back from its statement, whatever quoted names it
has.
-/
theorem read_viewStatement {schema view name : Text}
    (noFeed : '\n' ∉ schema ∧ '\n' ∉ view) (nonempty : view ≠ []) :
    View.read (viewStatement schema view name) =
      .ok (declaredView schema view name) := by
  have ends : startsWith endsName
      (Cell.plain ' ' :: selectionCells schema name) = true := rfl
  have named := readName_dottedCells .view noFeed nonempty ends
  have head : readHead? .view (cells (viewStatement schema view name)) =
      some ({}, dottedCells schema view ++
        .plain ' ' :: selectionCells schema name) := by
    obtain ⟨others, starts⟩ := dottedCells_eq_cons schema view
    rw [cells_viewStatement, starts]
    exact readHead?_view _
  have columns : View.readColumns
      (Cell.plain ' ' :: selectionCells schema name) =
        .ok (none, .plain ' ' :: selectionCells schema name) := rfl
  have keyword : findFirst asKeyword? []
      (Cell.plain ' ' :: selectionCells schema name) =
        some ([.plain ' '], (), queryCells schema name) := rfl
  have filled : (selection schema name).isEmpty = false := rfl
  have front : upTo (dottedCells schema view ++
      .plain ' ' :: selectionCells schema name)
        ((Cell.plain ' ' :: selectionCells schema name).drop 1) =
          dottedCells schema view ++ [.plain ' '] := by
    have parts := upTo_append (dottedCells schema view ++ [Cell.plain ' '])
      (selectionCells schema name)
    rwa [List.append_assoc] at parts
  unfold View.read
  simp only [head, Reading.require, bind, Except.bind, named, columns,
    keyword, dropFinalBlanks_queryCells, readSource_queryCells,
    trim_selection, filled, List.length_singleton, front,
    findComment_dottedCells noFeed, View.terminated, getLast?_selection]
  rfl

/-! ## Scripts -/

/-- A statement that can stand in front of others and creates an object. -/
def Creates (statement : Text) (object : DdlObject) : Prop :=
  IsClosed statement ∧
    (Script.read statement).map Script.objects = .ok [object]

instance (statement : Text) (object : DdlObject) :
    Decidable (Creates statement object) :=
  inferInstanceAs (Decidable (_ ∧ _))

/-- Statements with a semicolon behind each. -/
def ofStatements (statements : List Text) : Text :=
  statements.flatMap (· ++ [';'])

/-- Statements that create objects create them behind each other. -/
theorem objects_ofStatements {statements : List Text}
    {objects : List DdlObject}
    (create : List.Forall₂ Creates statements objects) :
    (Script.read (ofStatements statements)).map Script.objects =
      .ok objects := by
  induction create with
  | nil => rfl
  | @cons statement object statements objects here others ih =>
      have first : ofStatements (statement :: statements) =
          statement ++ ';' :: ofStatements statements := by
        simp [ofStatements]
      rw [first, Script.objects_behind here.1, here.2, ih]
      rfl

/-- What is one statement is read as that statement. -/
theorem Script.read_of_single {text trimmed : Text} {kind : ObjectKind}
    {object : DdlObject} {notes : List Note}
    (single : statementTexts text = [text]) (trims : trim text = trimmed)
    (kindOf : DdlObject.kindOf? trimmed = some kind)
    (result : DdlObject.read kind trimmed = .ok (object, notes)) :
    Script.read text = .ok { objects := [object], notes := notes } := by
  have filled : trimmed.isEmpty = false := by
    cases trimmed with
    | nil =>
        have nothing : DdlObject.kindOf? [] = none := by decide
        rw [nothing] at kindOf
        cases kindOf
    | cons first rest => rfl
  rw [Script.read, statements, single, numberStatements, trims, filled]
  simp only [Bool.false_eq_true, if_false, numberStatements,
    Script.ofStatements, Script.ofStatement, kindOf, result]
  simp [bind, Except.bind, Script.append, pure, Except.pure]

/-- A closed statement that is read by itself creates its object. -/
theorem creates_of_read {text trimmed : Text} {kind : ObjectKind}
    {object : DdlObject} {notes : List Note} (closed : IsClosed text)
    (single : statementTexts text = [text]) (trims : trim text = trimmed)
    (kindOf : DdlObject.kindOf? trimmed = some kind)
    (result : DdlObject.read kind trimmed = .ok (object, notes)) :
    Creates text object := by
  refine ⟨closed, ?_⟩
  rw [Script.read_of_single single trims kindOf result]
  rfl

theorem creates_tableStatement {schema name : Text}
    (noFeed : '\n' ∉ schema ∧ '\n' ∉ name) (nonempty : name ≠ []) :
    Creates (tableStatement schema name)
      (.table (declaredTable schema name)) := by
  have spelling := isSpelling_table schema name
  have whole : ∀ code ∈ (["CREATE TABLE ", "."] : List Text), ';' ∉ code := by
    decide
  have closed := isClosed_spell spelling
  have single := statementTexts_spell spelling whole (by decide)
  rw [← tableStatement_eq_spell] at closed single
  have last : (tableStatement schema name).getLast? = some ')' := by
    unfold tableStatement
    rw [List.getLast?_append]
    rfl
  have trims : trim (tableStatement schema name) =
      tableStatement schema name :=
    trim_of_ends rfl last (by decide)
  have result : DdlObject.read .table (tableStatement schema name) =
      .ok (.table (declaredTable schema name), []) := by
    rw [DdlObject.read, read_tableStatement noFeed nonempty]
    rfl
  exact creates_of_read closed single trims
    (kindOf?_tableStatement schema name) result

theorem creates_viewStatement {schema view : Text}
    (noFeed : '\n' ∉ schema ∧ '\n' ∉ view) (nonempty : view ≠ [])
    (name : Text) :
    Creates (' ' :: viewStatement schema view name)
      (.view (declaredView schema view name)) := by
  have spelled : ' ' :: viewStatement schema view name =
      spell [(" CREATE VIEW ", schema), (['.'], view),
        (" AS SELECT * FROM ", schema), (['.'], name)] [] :=
    congrArg (' ' :: ·) (viewStatement_eq_spell schema view name)
  have codes : ∀ code ∈ ([" CREATE VIEW ", ".", " AS SELECT * FROM ", "."] :
      List Text), (code ≠ [] ∧ IsQuiet code) ∧ ';' ∉ code := by
    decide
  have spelling : IsSpelling [(" CREATE VIEW ", schema), (['.'], view),
      (" AS SELECT * FROM ", schema), (['.'], name)] [] :=
    ⟨fun code member => (codes code member).1, by decide⟩
  have whole := fun code member => (codes code member).2
  have closed := isClosed_spell spelling
  have single := statementTexts_spell spelling whole (by decide)
  rw [← spelled] at closed single
  have last : (viewStatement schema view name).getLast? = some '"' := by
    unfold viewStatement
    rw [List.getLast?_append, getLast?_selection]
    rfl
  have trims : trim (' ' :: viewStatement schema view name) =
      viewStatement schema view name := by
    rw [trim_cons_blank]
    exact trim_of_ends rfl last (by decide)
  have result : DdlObject.read .view (viewStatement schema view name) =
      .ok (.view (declaredView schema view name), []) := by
    rw [DdlObject.read, read_viewStatement noFeed nonempty]
    rfl
  exact creates_of_read closed single trims
    (kindOf?_viewStatement schema view name) result

end Snowform
