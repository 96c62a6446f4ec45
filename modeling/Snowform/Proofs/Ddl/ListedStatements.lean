import Snowform.Proofs.Ddl.ListedTables

/-!
# Statements with lists of quoted names

The columns of a view and the parameters of a procedure are lists of names, as
those of a table are.  Each list is read back name for name, whatever
characters the names have.
-/

namespace Snowform

open Text Lexical

/-! ## Views -/

namespace NameList

variable (list : NameList)

/-- A statement that creates a view with columns of these names. -/
def viewStatement : Text :=
  enclosed "CREATE VIEW v " list.text ++ (" AS SELECT 1" : Text)

/-- The view that the statement creates. -/
def view : View where
  name := { name := "v" }
  columns := some list.names
  query := "SELECT 1;"

/-- What is seen of the view behind its list of columns. -/
def queryTail : List Cell :=
  (" AS SELECT 1" : Text).map .plain

/-- What is seen of the view from its name on. -/
def viewCells : List Cell :=
  ("v (" : Text).map .plain ++ (cells list.text ++ .plain ')' :: queryTail)

theorem isPhrase_viewStatement : IsPhrase list.viewStatement :=
  (isPart_enclosed (by decide) list.isPart_text).isPhrase_append _
    (isPart_code (by decide)).isPhrase (by decide)

/-- In the masked statement of a view only the names are covered. -/
theorem cells_viewStatement :
    cells list.viewStatement =
      ("CREATE VIEW " : Text).map .plain ++ list.viewCells := by
  have opening : IsStill ("CREATE VIEW v " : Text) := by decide
  have query : IsStill (" AS SELECT 1" : Text) := by decide
  have masked := cells_enclosed_append opening list.isPart_text
    (isPart_code query).isPhrase
  rwa [cells_code query] at masked

/-- The columns of a view are read back in front of its query. -/
theorem readColumns_text :
    View.readColumns (.plain ' ' :: .plain '(' ::
        (cells list.text ++ .plain ')' :: queryTail)) =
      .ok (some list.names, queryTail) := by
  have inside : parenthesised? (Cell.plain '(' ::
      (cells list.text ++ .plain ')' :: queryTail)) =
        some (cells list.text, queryTail) :=
    list.isBalanced_cells_text.parenthesised?_eq rfl rfl queryTail
  unfold View.readColumns
  simp only [skipBlanks_opening, startsWith_opening, if_true, inside,
    Reading.require, bind, Except.bind, readSource_cells]
  rw [text, columnNames_listed list.filled]
  rfl

/-- There is no comment in front of the query. -/
theorem findComment_viewCells :
    findComment (upTo list.viewCells (queryTail.drop 1)) = .ok none := by
  have front : upTo list.viewCells (queryTail.drop 1) =
      ("v (" : Text).map .plain ++
        (cells list.text ++ [.plain ')', .plain ' ']) := by
    have parts : list.viewCells = (("v (" : Text).map .plain ++
        (cells list.text ++ [.plain ')', .plain ' '])) ++
          queryTail.drop 1 := by
      rw [viewCells, List.append_assoc, List.append_assoc]
      rfl
    rw [parts, upTo_append]
  have opens : ∀ cell ∈ ("v (" : Text).map Cell.plain, shown cell ≠ '=' := by
    decide
  refine findComment_eq_none ?_
  rw [front]
  simp only [List.forall_mem_append, List.forall_mem_cons]
  exact ⟨opens, list.shown_ne_equals, by decide⟩

/-- A view with named columns is read back whole. -/
theorem read_viewStatement : View.read list.viewStatement = .ok list.view := by
  have head : readHead? .view
      (("CREATE VIEW " : Text).map .plain ++ list.viewCells) =
        some ({}, list.viewCells) := rfl
  have named : readName .view list.viewCells =
      .ok ({ name := "v" }, .plain ' ' :: .plain '(' ::
        (cells list.text ++ .plain ')' :: queryTail)) := rfl
  have keyword : findFirst asKeyword? [] queryTail =
      some ([.plain ' '], (), (" SELECT 1" : Text).map .plain) := rfl
  have query : readSource (dropFinalBlanks
      ((" SELECT 1" : Text).map Cell.plain)) = .ok " SELECT 1" := rfl
  unfold View.read
  simp only [cells_viewStatement, head, Reading.require, bind, Except.bind,
    named, readColumns_text, keyword, query, List.length_singleton,
    findComment_viewCells, Reading.ofFault]
  rfl

/-- A script with one such view holds that view and nothing else. -/
theorem read_viewScript :
    Script.read list.viewStatement = .ok { objects := [.view list.view] } := by
  have last : list.viewStatement.getLast? = some '1' := by
    rw [viewStatement, List.getLast?_append]
    rfl
  have result : DdlObject.read .view list.viewStatement =
      .ok (.view list.view, []) := by
    rw [DdlObject.read, list.read_viewStatement]
    rfl
  exact Script.read_of_isPhrase list.isPhrase_viewStatement rfl last
    (by decide) rfl result

end NameList

/-! ## Procedures -/

namespace Procedure

/-- What stands in a procedure behind its list of parameters. -/
def emptyBody : Text := " RETURNS INT AS ''"

theorem isPhrase_emptyBody : IsPhrase emptyBody := by
  decide

/-- A list in parentheses is the list of the parameters. -/
theorem read_enclosed {list : Text} (part : IsPart list)
    (balanced : IsBalanced (cells list)) :
    read (enclosed "CREATE PROCEDURE p" list ++ emptyBody) =
      .ok {
        name := { name := "p" }
        parameters := readParameters list
        returnType := some "INT" } := by
  have masked : cells (enclosed "CREATE PROCEDURE p" list ++ emptyBody) =
      ("CREATE PROCEDURE p" : Text).map .plain ++
        .plain '(' :: (cells list ++ .plain ')' :: cells emptyBody) :=
    cells_enclosed_append (by decide) part isPhrase_emptyBody
  have head : ∀ others : List Cell, readHead? .procedure
      (("CREATE PROCEDURE p" : Text).map Cell.plain ++ .plain '(' :: others) =
        some ({}, .plain 'p' :: .plain '(' :: others) :=
    fun _ => rfl
  have named : ∀ others : List Cell,
      readName .procedure (.plain 'p' :: .plain '(' :: others) =
        .ok ({ name := "p" }, .plain '(' :: others) :=
    fun _ => rfl
  have start : ∀ others : List Cell,
      (Cell.plain '(' :: others).dropWhile (shows (· != '(')) =
        .plain '(' :: others :=
    fun _ => rfl
  have inside : parenthesised? (Cell.plain '(' ::
      (cells list ++ .plain ')' :: cells emptyBody)) =
        some (cells list, cells emptyBody) :=
    balanced.parenthesised?_eq rfl rfl _
  have body : findBody? none [] (cells emptyBody) =
      some (none, 13, (cells emptyBody).drop 15) := by
    decide
  have returns : (returnType? ((cells emptyBody).take 13)
      (cells emptyBody)).mapM readSource = .ok (some "INT") := rfl
  have language : languageOf ((cells emptyBody).take 13) =
      defaultLanguage := by
    decide
  have comment : findComment ((cells emptyBody).take 13) = .ok none := rfl
  have written : readSource (dropFinalBlanks ((cells emptyBody).drop 15)) =
      .ok " ''" := rfl
  unfold read
  simp only [masked, head, Reading.require, bind, Except.bind, named, start,
    List.isEmpty_cons, inside, readSource_cells, body, returns, written,
    comment, language, Reading.ofFault]
  rfl

end Procedure

namespace NameList

variable (list : NameList)

/-- A statement that creates a procedure with parameters of these names. -/
def procedureStatement : Text :=
  enclosed "CREATE PROCEDURE p" (listed typed list.names) ++
    Procedure.emptyBody

/-- The procedure that the statement creates. -/
def procedure : Procedure where
  name := { name := "p" }
  parameters := list.names.map typedParameter
  returnType := some "INT"

theorem isPart_parameters : IsPart (listed typed list.names) :=
  isPart_listed isTrailing_typed.still _

theorem isPhrase_procedureStatement : IsPhrase list.procedureStatement :=
  (isPart_enclosed (by decide) list.isPart_parameters).isPhrase_append _
    Procedure.isPhrase_emptyBody (by decide)

/-- A procedure with typed parameters is read back whole. -/
theorem read_procedureStatement :
    Procedure.read list.procedureStatement = .ok list.procedure := by
  rw [procedureStatement, Procedure.read_enclosed list.isPart_parameters
    (isBalanced_cells_listed isTrailing_typed.still (by decide) _),
    readParameters_listed]
  rfl

/-- A script with one such procedure holds that procedure and nothing else. -/
theorem read_procedureScript :
    Script.read list.procedureStatement =
      .ok { objects := [.procedure list.procedure] } := by
  have last : list.procedureStatement.getLast? = some '\'' := by
    rw [procedureStatement, List.getLast?_append]
    rfl
  have result : DdlObject.read .procedure list.procedureStatement =
      .ok (.procedure list.procedure, []) := by
    rw [DdlObject.read, list.read_procedureStatement]
    rfl
  exact Script.read_of_isPhrase list.isPhrase_procedureStatement rfl last
    (by decide) rfl result

end NameList

/-! ## Scripts -/

/--
Names are read back exactly and in order from every list of them: the columns
of a table, its keys and its clustering keys, the columns of a view and the
parameters of a procedure.
-/
theorem Script.quoted_lists_read_back (table : ListedTable)
    (outputs parameters : NameList) :
    (∃ definition : Table,
      Script.read table.statement = .ok { objects := [.table definition] } ∧
        definition.columns = table.columns.names.map typedColumn ∧
        definition.constraints.map Constraint.toConstraintTerms =
          table.keys.map ListedKey.terms ∧
        definition.clusterBy = table.clusterBy.map NameList.names) ∧
      Script.read outputs.viewStatement =
        .ok { objects := [.view outputs.view] } ∧
      Script.read parameters.procedureStatement =
        .ok { objects := [.procedure parameters.procedure] } := by
  have terms : table.definition.constraints.map Constraint.toConstraintTerms =
      table.keys.map ListedKey.terms := by
    rw [ListedTable.definition, Table.Contents.terms_addConstraints,
      List.map_map]
    rfl
  exact ⟨⟨table.definition, table.read_script, rfl, terms, rfl⟩,
    outputs.read_viewScript, parameters.read_procedureScript⟩

/-- Quotes, commas, parentheses and comment openers in a name. -/
example :
    let names : NameList := ⟨["a\"b, ("], by decide, by decide⟩
    let keys : List ListedKey := [⟨.unique, .inr rfl, names⟩]
    (⟨names, keys, some names⟩ : ListedTable).statement =
      ("CREATE TABLE t (\"a\"\"b, (\" INT, UNIQUE (\"a\"\"b, (\"))" : Text) ++
        (" CLUSTER BY (\"a\"\"b, (\")" : Text) := by
  decide

end Snowform
