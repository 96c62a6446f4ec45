import Snowform.Proofs.Ddl.ListedStatements
import Snowform.Proofs.Ddl.LiteralParts
import Snowform.Proofs.Ddl.ProcedureBodies
import Snowform.Proofs.Text.Searching

/-!
# Comments of objects

Any text can be the comment of a table, a view or a procedure.  Of the string
that it is written as a masked statement shows the quotes and line feeds, so
that no keyword and no parenthesis in it counts, and every search for a clause
passes over it.
-/

namespace Snowform

open Text Lexical

/-! ## The clause -/

/-- A comment clause as it is written. -/
def commentText (content : Text) : Text :=
  "COMMENT = " ++ stringLiteral content

theorem isPart_commentText (content : Text) : IsPart (commentText content) :=
  (isPart_stringLiteral content).code_append (by decide)

theorem getLast?_commentText (content : Text) :
    (commentText content).getLast? = some '\'' :=
  List.mem_getLast?_append_of_mem_getLast? (getLast?_stringLiteral content)

theorem cells_commentText (content : Text) :
    cells (commentText content) =
      ("COMMENT = " : Text).map .plain ++ cells (stringLiteral content) :=
  cells_code_append (isPart_stringLiteral content).isPhrase (by decide)

/-- The clause goes up to the closing quote. -/
theorem commentClause?_commentText (content : Text) {behind : List Cell}
    (apart : startsWith isWord behind = false) (back : List Cell) :
    commentClause? behind (cells (commentText content) ++ back) =
      some (cells (commentText content), back) := by
  have noQuote : ∀ cell ∈ (doubledQuotes content).flatMap (veil '_'),
      shows (· != '\'') cell = true :=
    forall_shown_of_veil (fun shown => (shown != '\'') = true) (by decide)
      (by decide)
  have ended : ((doubledQuotes content).flatMap (veil '_') ++
      .plain '\'' :: back).dropWhile (shows (· != '\'')) =
        .plain '\'' :: back :=
    List.dropWhile_append_of_pos noQuote
  have ahead : cells (commentText content) ++ back =
      ("COMMENT = " : Text).map .plain ++ .plain '\'' ::
        ((doubledQuotes content).flatMap (veil '_') ++
          .plain '\'' :: back) := by
    simp only [cells_commentText, cells_stringLiteral, List.append_assoc,
      List.cons_append, List.nil_append]
  have boundary : ∀ inside, isBoundary behind
      (("COMMENT = " : Text).map .plain ++ .plain '\'' :: inside) = true := by
    intro inside
    rw [isBoundary, apart]
    rfl
  have read : ∀ inside, commentClause? behind
      (("COMMENT = " : Text).map .plain ++ .plain '\'' :: inside) =
      (let ended := inside.dropWhile (shows (· != '\''))
       let after := (character? '\'' ended).getD ended
       some (upTo (("COMMENT = " : Text).map Cell.plain ++
         .plain '\'' :: inside) after, after)) := by
    intro inside
    unfold commentClause?
    rw [boundary]
    rfl
  rw [ahead, read]
  dsimp only
  rw [ended, ← ahead]
  exact congrArg (fun front => some (front, back))
    (upTo_append (cells (commentText content)) back)

/-- The literal of the clause is read back. -/
theorem findComment_of_found {content : Text} {list before back : List Cell}
    (found : findFirst commentClause? [] list =
      some (before, cells (commentText content), back)) :
    findComment list = .ok (some content) := by
  have written : sourceOf (cells (commentText content)) =
      .ok (commentText content) := sourceOf_cells _
  have literal : (commentText content).dropWhile (· != '\'') =
      stringLiteral content := rfl
  rw [findComment, found]
  dsimp only
  rw [written]
  dsimp only [bind, Except.bind]
  rw [literal, unquoteLiteral_stringLiteral]
  rfl

theorem cells_commentText_append_ne_nil (content : Text) (back : List Cell) :
    cells (commentText content) ++ back ≠ [] := by
  rw [cells_commentText]
  exact List.append_ne_nil_of_left_ne_nil
    (List.append_ne_nil_of_left_ne_nil (by decide) _) _

/-- The comment is found behind what no comment clause starts in. -/
theorem findComment_commentText (content : Text) {front : List Cell}
    (absent : ∀ cell ∈ front, isKeywordLetter 'C' (shown cell) = false)
    (back : List Cell) :
    findComment (front ++ .plain ' ' :: (cells (commentText content) ++ back)) =
      .ok (some content) := by
  have found : findFirst commentClause? []
      (front ++ .plain ' ' :: (cells (commentText content) ++ back)) =
        some (.plain ' ' :: front.reverse, cells (commentText content),
          back) := by
    have clause := commentClause?_commentText content
      (show startsWith isWord (.plain ' ' :: front.reverse) = false from rfl)
      back
    rw [startsIn_commentClause?.findFirst_append absent, List.append_nil,
      findFirst, startsIn_commentClause?.eq_none (by decide)]
    exact findFirst_of_some (cells_commentText_append_ne_nil content back)
      clause
  exact findComment_of_found found

/-! ## The statements -/

/-- A text in which no character spells a letter. -/
def LacksLetter (letter : Char) (text : Text) : Prop :=
  ∀ character ∈ text, isKeywordLetter letter character = false

instance (letter : Char) (text : Text) : Decidable (LacksLetter letter text) :=
  List.decidableBAll _ text

section

variable {letter : Char} (content : Text)

/-- What a masked string shows is no letter of a keyword. -/
theorem isKeywordLetter_stringLiteral
    (others : LacksLetter letter ['\'', '_', '\n']) :
    ∀ cell ∈ cells (stringLiteral content),
      isKeywordLetter letter (shown cell) = false :=
  fun cell member => others (shown cell) (shown_of_mem_stringLiteral member)

/-- No other keyword starts in a comment clause. -/
theorem isKeywordLetter_commentText
    (others : LacksLetter letter ['\'', '_', '\n'])
    (word : LacksLetter letter "COMMENT = ") :
    ∀ cell ∈ cells (commentText content),
      isKeywordLetter letter (shown cell) = false := by
  rw [cells_commentText, List.forall_mem_append, List.forall_mem_map]
  exact ⟨word, isKeywordLetter_stringLiteral content others⟩

end

/-- What is seen of a word `AS` and of what follows it. -/
def asCells (others : List Cell) : List Cell :=
  .plain 'A' :: .plain 'S' :: .plain ' ' :: others

namespace Table

/-- A statement that creates a table with a comment. -/
def labelledStatement (content : Text) : Text :=
  "CREATE TABLE x (id INT) " ++ commentText content

/-- The table that the statement creates. -/
def labelled (content : Text) : Table where
  name := { name := "x" }
  columns := [{ name := "id", dataType := "INT" }]
  comment := some content

theorem isPhrase_labelledStatement (content : Text) :
    IsPhrase (labelledStatement content) :=
  isPhrase_code_append (isPart_commentText content).isPhrase (by decide)

/-- There are no clustering keys in a comment. -/
theorem readClusterBy_commentText (content : Text) :
    readClusterBy (.plain ' ' :: cells (commentText content)) = .ok none := by
  have passed : ∀ rest, findFirst clusterBy? []
      (.plain ' ' :: (("COMMENT = " : Text).map Cell.plain ++ rest)) =
        findFirst clusterBy? ((" COMMENT = " : Text).map Cell.plain).reverse
          rest := fun _ => rfl
  have absent : findFirst clusterBy? []
      (.plain ' ' :: cells (commentText content)) = none := by
    rw [cells_commentText, passed]
    exact startsIn_clusterBy?.findFirst_eq_none
      (isKeywordLetter_stringLiteral content (by decide)) _
  rw [readClusterBy, absent]
  rfl

theorem read_labelledStatement (content : Text) :
    read (labelledStatement content) = .ok (labelled content, []) := by
  have masked : cells (labelledStatement content) =
      ("CREATE TABLE x (id INT) " : Text).map .plain ++
        cells (commentText content) :=
    cells_code_append (isPart_commentText content).isPhrase (by decide)
  have head : ∀ others, readHead? .table
      (("CREATE TABLE x (id INT) " : Text).map Cell.plain ++ others) =
        some ({}, ("x (id INT) " : Text).map Cell.plain ++ others) :=
    fun _ => rfl
  have named : ∀ others, readName .table
      (("x (id INT) " : Text).map Cell.plain ++ others) =
        .ok ({ name := "x" }, .plain ' ' :: .plain '(' ::
          (("id INT) " : Text).map Cell.plain ++ others)) :=
    fun _ => rfl
  have inside : ∀ others, parenthesised? (.plain '(' ::
      (("id INT) " : Text).map Cell.plain ++ others)) =
        some (("id INT" : Text).map .plain, .plain ' ' :: others) :=
    fun _ => rfl
  have source : readSource (("id INT" : Text).map .plain) = .ok "id INT" := rfl
  have contents : Contents.read "x" "id INT" =
      .ok { columns := [{ name := "id", dataType := "INT" }] } := rfl
  have comment : findComment (.plain ' ' :: cells (commentText content)) =
      .ok (some content) := by
    have found := findComment_commentText content (List.forall_mem_nil _) []
    rwa [List.append_nil, List.nil_append] at found
  unfold read
  simp only [masked, head, Reading.require, bind, Except.bind, named,
    skipBlanks_opening, startsWith_opening, if_true, inside, source, contents,
    Reading.ofFault, comment, readClusterBy_commentText]
  rfl

end Table

namespace View

/-- A statement that creates a view with a comment. -/
def labelledStatement (content : Text) : Text :=
  "CREATE VIEW v " ++ (commentText content ++ " AS SELECT 1")

/-- The view that the statement creates. -/
def labelled (content : Text) : View where
  name := { name := "v" }
  query := "SELECT 1;"
  comment := some content

/-- The query starts behind the comment, whatever words that has. -/
theorem findFirst_commentText (content : Text) (others : List Cell) :
    findFirst asKeyword? [] (.plain ' ' :: (cells (commentText content) ++
        .plain ' ' :: asCells others)) =
      some (.plain ' ' :: (.plain ' ' :: cells (commentText content)).reverse,
        (), .plain ' ' :: others) := by
  have clause : ∀ cell ∈ .plain ' ' :: cells (commentText content),
      isKeywordLetter 'A' (shown cell) = false :=
    List.forall_mem_cons.mpr ⟨by decide,
      isKeywordLetter_commentText content (by decide) (by decide)⟩
  rw [← List.cons_append, startsIn_asKeyword?.findFirst_append clause,
    findFirst, startsIn_asKeyword?.eq_none (by decide), List.append_nil]
  rfl

theorem isPhrase_labelledStatement (content : Text) :
    IsPhrase (labelledStatement content) :=
  isPhrase_code_append
    ((isPart_commentText content).isPhrase_append _
      (isPart_code (by decide)).isPhrase (by decide)) (by decide)

theorem cells_labelledStatement (content : Text) :
    cells (labelledStatement content) =
      ("CREATE VIEW v " : Text).map .plain ++
        (cells (commentText content) ++
          .plain ' ' :: asCells (("SELECT 1" : Text).map .plain)) := by
  have query : IsStill (" AS SELECT 1" : Text) := by decide
  have phrase := (isPart_code query).isPhrase
  have part := isPart_commentText content
  have bare : StartsBare (" AS SELECT 1" : Text) := by decide
  have masked : cells (" AS SELECT 1" : Text) =
      .plain ' ' :: asCells (("SELECT 1" : Text).map .plain) :=
    cells_code query
  rw [← masked, ← part.cells_append _ phrase bare]
  exact cells_code_append (part.isPhrase_append _ phrase bare) (by decide)

/-- The comment stands in front of the word. -/
theorem findComment_head (content : Text) (others : List Cell) :
    findComment (upTo
      (.plain 'v' :: .plain ' ' :: (cells (commentText content) ++
        .plain ' ' :: asCells others))
      ((.plain ' ' :: (cells (commentText content) ++
        .plain ' ' :: asCells others)).drop
          (.plain ' ' :: (.plain ' ' ::
            cells (commentText content)).reverse).length)) =
      .ok (some content) := by
  have dropped : (.plain ' ' :: (cells (commentText content) ++
      .plain ' ' :: asCells others)).drop (.plain ' ' :: (.plain ' ' ::
        cells (commentText content)).reverse).length = asCells others := by
    have parts : .plain ' ' :: (cells (commentText content) ++
        .plain ' ' :: asCells others) =
          (.plain ' ' :: (cells (commentText content) ++ [.plain ' '])) ++
            asCells others := by
      simp only [List.cons_append, List.append_assoc, List.nil_append]
    have size : (.plain ' ' :: (.plain ' ' ::
        cells (commentText content)).reverse).length =
          (.plain ' ' :: (cells (commentText content) ++
            [.plain ' '])).length := by
      simp only [List.length_cons, List.length_reverse, List.length_append,
        List.length_nil]
    rw [parts, size, List.drop_left]
  have parts : .plain 'v' :: .plain ' ' :: (cells (commentText content) ++
      .plain ' ' :: asCells others) =
        (.plain 'v' :: .plain ' ' :: (cells (commentText content) ++
          [.plain ' '])) ++ asCells others := by
    simp only [List.cons_append, List.append_assoc, List.nil_append]
  rw [dropped, parts, upTo_append]
  exact findComment_commentText content
    (List.forall_mem_singleton.mpr (by decide)) [.plain ' ']

theorem readColumns_commentText (content : Text) (others : List Cell) :
    readColumns (.plain ' ' :: (cells (commentText content) ++ others)) =
      .ok (none, .plain ' ' :: (cells (commentText content) ++ others)) := by
  have word : ∀ others, readColumns
      (.plain ' ' :: (("COMMENT = " : Text).map Cell.plain ++ others)) =
        .ok (none,
          .plain ' ' :: (("COMMENT = " : Text).map Cell.plain ++ others)) :=
    fun _ => rfl
  have parts : cells (commentText content) ++ others =
      ("COMMENT = " : Text).map .plain ++
        (cells (stringLiteral content) ++ others) := by
    rw [cells_commentText]
    exact List.append_assoc _ _ _
  rw [parts]
  exact word _

theorem read_labelledStatement (content : Text) :
    read (labelledStatement content) = .ok (labelled content) := by
  have head : ∀ others, readHead? .view
      (("CREATE VIEW v " : Text).map Cell.plain ++ others) =
        some ({}, .plain 'v' :: .plain ' ' :: others) :=
    fun _ => rfl
  have named : ∀ others, readName .view (.plain 'v' :: .plain ' ' :: others) =
      .ok ({ name := "v" }, .plain ' ' :: others) :=
    fun _ => rfl
  have keyword := findFirst_commentText content
    (("SELECT 1" : Text).map .plain)
  have query : readSource (dropFinalBlanks (.plain ' ' ::
      ("SELECT 1" : Text).map Cell.plain)) = .ok " SELECT 1" := rfl
  have comment := findComment_head content (("SELECT 1" : Text).map .plain)
  unfold read
  simp only [cells_labelledStatement, head, Reading.require, bind,
    Except.bind, named, readColumns_commentText, keyword, query, comment,
    Reading.ofFault]
  rfl

end View

namespace Procedure

/-- A statement that creates a procedure with a comment. -/
def labelledStatement (content : Text) : Text :=
  "CREATE PROCEDURE p() RETURNS INT " ++ (commentText content ++ " AS 'x'")

/-- The procedure that the statement creates. -/
def labelled (content : Text) : Procedure where
  name := { name := "p" }
  returnType := some "INT"
  body := "x"
  comment := some content

/-- What is seen between the parameters and the body. -/
def headerCells (content : Text) : List Cell :=
  (" RETURNS INT " : Text).map .plain ++
    (cells (commentText content) ++ [.plain ' '])

/-- What is seen of the body. -/
def bodyCells : List Cell :=
  cells ("'x'" : Text)

theorem isPhrase_labelledStatement (content : Text) :
    IsPhrase (labelledStatement content) :=
  isPhrase_code_append
    ((isPart_commentText content).isPhrase_append _
      (by decide : IsPhrase " AS 'x'") (by decide)) (by decide)

theorem headerCells_append (content : Text) (others : List Cell) :
    headerCells content ++ others =
      (" RETURNS INT " : Text).map .plain ++
        (cells (commentText content) ++ .plain ' ' :: others) := by
  have comment : (cells (commentText content) ++ [.plain ' ']) ++ others =
      cells (commentText content) ++ .plain ' ' :: others :=
    List.append_assoc _ _ _
  exact (List.append_assoc _ _ _).trans (congrArg _ comment)

theorem cells_labelledStatement (content : Text) :
    cells (labelledStatement content) =
      ("CREATE PROCEDURE p() RETURNS INT " : Text).map .plain ++
        (cells (commentText content) ++
          .plain ' ' :: asCells bodyCells) := by
  have phrase : IsPhrase " AS 'x'" := by decide
  have part := isPart_commentText content
  have bare : StartsBare (" AS 'x'" : Text) := by decide
  have masked : cells (" AS 'x'" : Text) = .plain ' ' :: asCells bodyCells :=
    rfl
  rw [← masked, ← part.cells_append _ phrase bare]
  exact cells_code_append (part.isPhrase_append _ phrase bare) (by decide)

theorem isKeywordLetter_headerCells {letter : Char} (content : Text)
    (others : LacksLetter letter ['\'', '_', '\n'])
    (returns : LacksLetter letter " RETURNS INT ")
    (word : LacksLetter letter "COMMENT = ") :
    ∀ cell ∈ headerCells content,
      isKeywordLetter letter (shown cell) = false := by
  have blank : isKeywordLetter letter ' ' = false := returns ' ' (by decide)
  exact List.forall_mem_append.mpr ⟨List.forall_mem_map.mpr returns,
    List.forall_mem_append.mpr ⟨isKeywordLetter_commentText content others word,
      List.forall_mem_singleton.mpr blank⟩⟩

/-- The header ends in the quote of the comment and a blank. -/
theorem exists_headerCells (content : Text) :
    ∃ front, headerCells content = front ++ [.plain '\'', .plain ' '] := by
  have comment : cells (commentText content) =
      ("COMMENT = " : Text).map .plain ++
        (.plain '\'' :: (doubledQuotes content).flatMap (veil '_') ++
          [.plain '\'']) := by
    rw [cells_commentText, cells_stringLiteral]
    rfl
  have header : headerCells content = (" RETURNS INT " : Text).map .plain ++
      (cells (commentText content) ++ [.plain ' ']) := rfl
  rw [header, comment]
  exact ⟨(" RETURNS INT " : Text).map .plain ++
    (("COMMENT = " : Text).map .plain ++
      .plain '\'' :: (doubledQuotes content).flatMap (veil '_')), by
    simp only [List.append_assoc, List.cons_append, List.nil_append]⟩

/-- The body starts behind the comment, whatever words that has. -/
theorem findBody?_headerCells (content : Text) (others : List Cell) :
    findBody? none [] (headerCells content ++ asCells others) =
      some (none, (headerCells content).length, .plain ' ' :: others) := by
  have quiet : ∀ cell ∈ headerCells content,
      isKeywordLetter 'A' (shown cell) = false :=
    isKeywordLetter_headerCells content (by decide) (by decide) (by decide)
  obtain ⟨front, ends⟩ := exists_headerCells content
  have reversed : (headerCells content).reverse =
      .plain ' ' :: .plain '\'' :: front.reverse := by
    rw [ends, List.reverse_append]
    rfl
  have executes : followsExecute (headerCells content).reverse = false := by
    rw [reversed]
    rfl
  have boundary : startsWith isWord (headerCells content).reverse = false := by
    rw [reversed]
    rfl
  have apart : startsWith isWord (Cell.plain ' ' :: others) = false := rfl
  rw [findBody?_pass quiet, List.append_nil, asCells,
    findBody?_as none boundary apart, executes, List.length_reverse]
  rfl

/-- The return type is a word, behind which no parenthesis opens. -/
theorem returnType?_headerCells (content : Text) :
    returnType? (headerCells content) (headerCells content) =
      some (("INT" : Text).map .plain) := by
  have found : ∀ others : List Cell, findFirst returns? []
      ((" RETURNS " : Text).map Cell.plain ++
        (("INT" : Text).map .plain ++ .plain ' ' :: others)) =
        some ([.plain ' '], (), ("INT" : Text).map .plain ++
          .plain ' ' :: others) :=
    fun _ => rfl
  have word : ∀ others : List Cell, (("INT" : Text).map Cell.plain ++
      .plain ' ' :: others).dropWhile (shows continuesTypeWord) =
        .plain ' ' :: others :=
    fun _ => rfl
  have unopened : ∀ others : List Cell, startsWith (· == '(') (skipBlanks
      (.plain ' ' :: (("COMMENT = " : Text).map Cell.plain ++ others))) =
        false :=
    fun _ => rfl
  have words : (" RETURNS INT " : Text).map Cell.plain =
      (" RETURNS " : Text).map .plain ++
        (("INT" : Text).map .plain ++ [.plain ' ']) := rfl
  have header : headerCells content = (" RETURNS " : Text).map .plain ++
      (("INT" : Text).map .plain ++ .plain ' ' ::
        (("COMMENT = " : Text).map .plain ++
          (cells (stringLiteral content) ++ [.plain ' ']))) := by
    have parts := headerCells_append content []
    rw [List.append_nil, cells_commentText, words] at parts
    rw [parts]
    simp only [List.append_assoc, List.cons_append, List.nil_append]
  generalize cells (stringLiteral content) ++ [.plain ' '] = rest at header
  rw [header, returnType?, found]
  simp only [Option.bind_eq_bind, Option.bind_some, word, unopened,
    List.length_append, Nat.add_sub_cancel, List.drop_left, if_false,
    Bool.false_eq_true, upTo_append]
  rfl

theorem languageOf_headerCells (content : Text) :
    languageOf (headerCells content) = defaultLanguage := by
  have quiet : ∀ cell ∈ headerCells content,
      isKeywordLetter 'L' (shown cell) = false :=
    isKeywordLetter_headerCells content (by decide) (by decide) (by decide)
  rw [languageOf, startsIn_language?.occurrences_eq_nil quiet]
  rfl

theorem findComment_headerCells (content : Text) :
    findComment (headerCells content) = .ok (some content) := by
  have quiet : ∀ cell ∈ (" RETURNS INT" : Text).map Cell.plain,
      isKeywordLetter 'C' (shown cell) = false := by
    decide
  have words : (" RETURNS INT " : Text).map Cell.plain =
      (" RETURNS INT" : Text).map .plain ++ [.plain ' '] := rfl
  have header := headerCells_append content []
  rw [List.append_nil, words, List.append_assoc] at header
  rw [header]
  exact findComment_commentText content quiet [.plain ' ']

theorem read_labelledStatement (content : Text) :
    read (labelledStatement content) = .ok (labelled content) := by
  have head : ∀ others, readHead? .procedure
      (("CREATE PROCEDURE p() RETURNS INT " : Text).map Cell.plain ++ others) =
        some ({}, .plain 'p' :: .plain '(' :: .plain ')' ::
          ((" RETURNS INT " : Text).map .plain ++ others)) :=
    fun _ => rfl
  have named : ∀ others, readName .procedure
      (.plain 'p' :: .plain '(' :: .plain ')' :: others) =
        .ok ({ name := "p" }, .plain '(' :: .plain ')' :: others) :=
    fun _ => rfl
  have start : ∀ others : List Cell,
      (Cell.plain '(' :: others).dropWhile (shows (· != '(')) =
        .plain '(' :: others :=
    fun _ => rfl
  have inside : ∀ others : List Cell,
      parenthesised? (Cell.plain '(' :: .plain ')' :: others) =
        some ([], others) :=
    fun _ => rfl
  have body := findBody?_headerCells content bodyCells
  have returns : (returnType? (headerCells content)
      (headerCells content ++ asCells bodyCells)).mapM readSource =
        .ok (some "INT") := by
    rw [returnType?_append (by decide) rfl, returnType?_headerCells]
    rfl
  have written : readSource (dropFinalBlanks (.plain ' ' :: bodyCells)) =
      .ok " 'x'" := rfl
  unfold read
  simp only [cells_labelledStatement, head, ← headerCells_append,
    Reading.require, bind, Except.bind, named, start, List.isEmpty_cons,
    inside, body,
    List.take_left, returns, written, findComment_headerCells,
    languageOf_headerCells, Reading.ofFault]
  rfl

end Procedure

/--
Any text is read back as the comment of a table, a view or a procedure, and
changes nothing else of it.
-/
theorem Script.comments_read_back (content : Text) :
    Script.read (Table.labelledStatement content) =
        .ok { objects := [.table (Table.labelled content)] } ∧
      Script.read (View.labelledStatement content) =
        .ok { objects := [.view (View.labelled content)] } ∧
      Script.read (Procedure.labelledStatement content) =
        .ok { objects := [.procedure (Procedure.labelled content)] } := by
  refine ⟨?_, ?_, ?_⟩
  · have ends : (Table.labelledStatement content).getLast? = some '\'' :=
      List.mem_getLast?_append_of_mem_getLast? (getLast?_commentText content)
    have result : DdlObject.read .table (Table.labelledStatement content) =
        .ok (.table (Table.labelled content), []) := by
      rw [DdlObject.read, Table.read_labelledStatement]
      rfl
    exact read_of_isPhrase (Table.isPhrase_labelledStatement content) rfl ends
      (by decide) rfl result
  · have ends : (View.labelledStatement content).getLast? = some '1' :=
      List.mem_getLast?_append_of_mem_getLast?
        (List.mem_getLast?_append_of_mem_getLast? rfl)
    have result : DdlObject.read .view (View.labelledStatement content) =
        .ok (.view (View.labelled content), []) := by
      rw [DdlObject.read, View.read_labelledStatement]
      rfl
    exact read_of_isPhrase (View.isPhrase_labelledStatement content) rfl ends
      (by decide) rfl result
  · have ends : (Procedure.labelledStatement content).getLast? = some '\'' :=
      List.mem_getLast?_append_of_mem_getLast?
        (List.mem_getLast?_append_of_mem_getLast? rfl)
    have result : DdlObject.read .procedure
        (Procedure.labelledStatement content) =
          .ok (.procedure (Procedure.labelled content), []) := by
      rw [DdlObject.read, Procedure.read_labelledStatement]
      rfl
    exact read_of_isPhrase (Procedure.isPhrase_labelledStatement content) rfl
      ends (by decide) rfl result

/-- Words and marks that mean something elsewhere. -/
example :
    View.labelledStatement "it's; AS, -- CLUSTER BY (" =
      ("CREATE VIEW v COMMENT = 'it''s; AS, -- CLUSTER BY ('" : Text) ++
        (" AS SELECT 1" : Text) := by
  decide

end Snowform
