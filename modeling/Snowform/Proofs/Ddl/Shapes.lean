import Snowform.Proofs.Ddl.Slices

/-!
# Shapes of objects

Two statements that show the same masked text and name the same object are
read alike: both are rejected for the same reason, or both create objects of
the same shape.  What is written in literals and comments decides neither.

There is one exception.  A column list is split at commas that a dollar body
may hold, and an entry of it breaks when a reference in it is introduced by a
long s.
-/

namespace Snowform

open Text Lexical

/-! ## Views -/

namespace View

theorem readColumns_alike {first second : List Cell}
    (alike : LookAlike first second) :
    Reading.Alike (fun one other => one.1.isSome = other.1.isSome ∧
        LookAlike one.2 other.2)
      (readColumns first) (readColumns second) := by
  have list := alike.skipBlanks
  rw [readColumns, readColumns]
  simp only [list.startsWith_eq]
  split
  · apply (Reading.Alike.require list.parenthesised? _).bind
    intro one other _ _ parts
    apply parts.1.readSource.bind
    intro text another _ _ _
    exact .read ⟨rfl, parts.2⟩
  · exact .read ⟨rfl, alike⟩

/-- A query is empty exactly when the masked script shows nothing of it. -/
theorem isEmpty_trim_source {body : List Cell} (enclosed : Enclosed false body)
    {text : Text} (source : source? (dropFinalBlanks body) = some text) :
    (trim text).isEmpty = (dropFinalBlanks body).isEmpty := by
  cases parts : dropFinalBlanks body with
  | nil =>
      rw [parts] at source
      cases source
      rfl
  | cons cell others =>
      have nonempty : dropFinalBlanks body ≠ [] := by
        rw [parts]
        exact List.cons_ne_nil cell others
      have kept : Enclosed false (dropFinalBlanks body) := by
        obtain ⟨blanks, whole, -⟩ := exists_finalBlanks body
        rw [whole] at enclosed
        exact enclosed.of_append
      obtain ⟨character, member, visible⟩ :=
        kept.exists_plain (exists_visible_of_dropFinalBlanks nonempty)
      have trimmed := trim_ne_nil (mem_of_sourceFrom? source member) visible
      rw [List.isEmpty_cons, Bool.eq_false_iff]
      exact fun empty => trimmed (List.isEmpty_iff.mp empty)

/-- What follows the word that introduces a query is not inside a literal. -/
theorem enclosed_body {statement : Text} {tail before body : List Cell}
    {found : Unit} (leaves : Leaves (cells statement) tail)
    (first : findFirst asKeyword? [] tail = some (before, found, body)) :
    Enclosed false body := by
  obtain ⟨here, further, -, word⟩ :=
    leaves_of_findFirst startsLoud_asKeyword? first
  obtain ⟨earlier, parts, -⟩ := leaves.trans further
  have enclosed := enclosed_cells statement
  rw [parts] at enclosed
  obtain ⟨still, enclosed⟩ := enclosed.exists_of_append
  obtain ⟨rest, known, same⟩ := Option.map_eq_some_iff.mp word
  cases same
  exact enclosed.behind_keyword (by decide) (by decide)
    (keyword?_of_wholeWord? known)

/-- What stands in front of the word that introduces a query. -/
theorem headers_alike {start begin tail ending body query : List Cell}
    {before earlier : List Cell} {left right : Unit}
    (starts : LookAlike start begin) (tails : LookAlike tail ending)
    (leftTail : Leaves start tail) (rightTail : Leaves begin ending)
    (leftFirst : findFirst asKeyword? [] tail = some (before, left, body))
    (rightFirst :
      findFirst asKeyword? [] ending = some (earlier, right, query))
    (places : before.length = earlier.length) :
    LookAlike (upTo start (tail.drop before.length))
      (upTo begin (ending.drop earlier.length)) := by
  obtain ⟨here, leftHere, rfl, -⟩ :=
    leaves_of_findFirst startsLoud_asKeyword? leftFirst
  obtain ⟨there, rightHere, rfl, -⟩ :=
    leaves_of_findFirst startsLoud_asKeyword? rightFirst
  exact {
    left := starts.left.upTo (leftTail.trans leftHere)
    right := starts.right.upTo (rightTail.trans rightHere)
    same := by
      rw [← upTo_shownText, ← upTo_shownText, ← drop_shownText,
        ← drop_shownText, starts.same, tails.same, places] }

end View

/-! ## Procedures -/

namespace Procedure

/-- The bodies of two procedures are found at the same place. -/
theorem findBody?_alike {first second : List Cell}
    (alike : LookAlike first second) :
    Option.Rel (fun one other => one.1 = other.1 ∧ one.2.1 = other.2.1 ∧
        LookAlike one.2.2 other.2.2)
      (findBody? none [] first) (findBody? none [] second) := by
  apply alike.find (findBody?_shownText none [])
  rintro ⟨mode, before, body⟩ ⟨other, earlier, ending⟩ left right same
  obtain ⟨modes, same⟩ := Prod.mk.inj same
  obtain ⟨places, shownBodies⟩ := Prod.mk.inj same
  exact ⟨modes, places,
    alike.left.of_leaves (headed_of_findBody? left).leaves,
    alike.right.of_leaves (headed_of_findBody? right).leaves, shownBodies⟩

/-- A return type is named in both headers, and read from each of them. -/
theorem returnType?_alike {first second body ending : List Cell}
    {before : Nat} (alike : LookAlike first second)
    (left : Headed first before body) (right : Headed second before ending) :
    Reading.Alike (fun one other => one.isSome = other.isSome)
      ((returnType? (first.take before) first).mapM readSource)
      ((returnType? (second.take before) second).mapM readSource) := by
  have same : (returnType? (first.take before) first).map shownText =
      (returnType? (second.take before) second).map shownText := by
    rw [← returnType?_shownText, ← returnType?_shownText, ← take_shownText,
      ← take_shownText, alike.same]
  cases leftType : returnType? (first.take before) first with
  | none =>
      cases rightType : returnType? (second.take before) second with
      | none => exact .read rfl
      | some other =>
          rw [leftType, rightType] at same
          cases same
  | some one =>
      cases rightType : returnType? (second.take before) second with
      | none =>
          rw [leftType, rightType] at same
          cases same
      | some other =>
          obtain ⟨text, source, -⟩ := (alike.left.of_cutsOut
            (left.cutsOut_returnType? leftType)).readSource
          obtain ⟨another, sourceToo, -⟩ := (alike.right.of_cutsOut
            (right.cutsOut_returnType? rightType)).readSource
          rw [Option.mapM_some, Option.mapM_some, source, sourceToo]
          exact .read rfl

end Procedure

/-! ## Shapes -/

/-- What the masked text decides of an object that a statement creates. -/
structure Shape where
  name : QualifiedName
  orReplace : Bool := false
  secure : Bool := false
  language : Text := defaultLanguage
  executeAs : Option ExecuteAs := none
  hasComment : Bool
  hasReturnType : Bool := false
  hasColumns : Bool := false
  deriving DecidableEq

def Table.shape (table : Table) : Shape where
  name := table.name
  hasComment := table.comment.isSome

def View.shape (view : View) : Shape where
  name := view.name
  orReplace := view.orReplace
  secure := view.secure
  hasComment := view.comment.isSome
  hasColumns := view.columns.isSome

def Procedure.shape (procedure : Procedure) : Shape where
  name := procedure.name
  language := procedure.language
  executeAs := procedure.executeAs
  hasComment := procedure.comment.isSome
  hasReturnType := procedure.returnType.isSome

/-- The heads of two statements, with the same name behind them. -/
theorem nameText?_eq {object : ObjectKind} {statement : Text}
    {flags : HeadFlags} {start : List Cell}
    (head : readHead? object (cells statement) = some (flags, start)) :
    nameText? object statement = source? (nameCells start) := by
  rw [nameText?, head]
  rfl

theorem lookAlike_cells {first second : Text}
    (same : mask first = mask second) :
    LookAlike (cells first) (cells second) where
  left := whole_cells first
  right := whole_cells second
  same := same

section Readings

variable {first second : Text}

theorem View.read_alike (same : mask first = mask second)
    (names : nameText? .view first = nameText? .view second) :
    Reading.Alike (fun one other => one.shape = other.shape)
      (View.read first) (View.read second) := by
  rw [View.read, View.read]
  apply (Reading.Alike.require
    ((lookAlike_cells same).readHead? .view) _).bind
  rintro ⟨flags, start⟩ ⟨_, begin⟩ leftHead rightHead ⟨rfl, starts⟩
  have leftStart := Reading.require_eq_ok_iff.mp leftHead
  have rightStart := Reading.require_eq_ok_iff.mp rightHead
  rw [nameText?_eq leftStart, nameText?_eq rightStart] at names
  apply (starts.readName .view names).bind
  rintro ⟨name, rest⟩ ⟨_, behind⟩ leftName rightName ⟨rfl, rests⟩
  apply (readColumns_alike rests).bind
  rintro ⟨columns, tail⟩ ⟨others, ending⟩ leftColumns rightColumns
    ⟨columned, tails⟩
  have found := tails.findFirst asKeyword?_shows startsLoud_asKeyword?
    fun _ _ _ _ known => leaves_of_asKeyword? known
  apply (Reading.Alike.require found _).bind
  rintro ⟨before, _, body⟩ ⟨earlier, _, query⟩ leftFound rightFound
    ⟨places, -, bodies⟩
  have leftFirst := Reading.require_eq_ok_iff.mp leftFound
  have rightFirst := Reading.require_eq_ok_iff.mp rightFound
  have leftTail := (leaves_of_readName leftName).trans
    (leaves_of_readColumns leftColumns)
  have rightTail := (leaves_of_readName rightName).trans
    (leaves_of_readColumns rightColumns)
  have leftBody := enclosed_body
    ((leaves_of_readHead? leftStart).trans leftTail) leftFirst
  have rightBody := enclosed_body
    ((leaves_of_readHead? rightStart).trans rightTail) rightFirst
  have heads := headers_alike starts tails leftTail rightTail leftFirst
    rightFirst places
  have queries := bodies.dropFinalBlanks
  obtain ⟨text, left, leftSource⟩ := queries.left.readSource
  obtain ⟨other, right, rightSource⟩ := queries.right.readSource
  have empty : (trim text).isEmpty = (trim other).isEmpty := by
    rw [isEmpty_trim_source leftBody leftSource,
      isEmpty_trim_source rightBody rightSource, queries.isEmpty_eq]
  obtain ⟨comment, another, leftComment, rightComment, comments⟩ :=
    heads.findComment
  dsimp only
  rw [left, right]
  change Reading.Alike _ (if (trim text).isEmpty then _ else _)
    (if (trim other).isEmpty then _ else _)
  rw [empty, leftComment, rightComment]
  split
  · exact .rejected _
  · refine .read ?_
    simp [View.shape, columned, comments]

theorem Procedure.read_alike (same : mask first = mask second)
    (names : nameText? .procedure first = nameText? .procedure second) :
    Reading.Alike (fun one other => one.shape = other.shape)
      (Procedure.read first) (Procedure.read second) := by
  rw [Procedure.read, Procedure.read]
  apply (Reading.Alike.require
    ((lookAlike_cells same).readHead? .procedure) _).bind
  rintro ⟨flags, start⟩ ⟨_, begin⟩ leftHead rightHead ⟨rfl, starts⟩
  have leftStart := Reading.require_eq_ok_iff.mp leftHead
  have rightStart := Reading.require_eq_ok_iff.mp rightHead
  rw [nameText?_eq leftStart, nameText?_eq rightStart] at names
  apply (starts.readName .procedure names).bind
  rintro ⟨name, rest⟩ ⟨_, behind⟩ leftName rightName ⟨rfl, rests⟩
  have lists := rests.dropWhile (· != '(')
  dsimp only
  rw [lists.isEmpty_eq]
  split
  · exact .rejected _
  · apply (Reading.Alike.require lists.parenthesised? _).bind
    rintro ⟨inside, tail⟩ ⟨within, following⟩ leftList rightList
      ⟨insides, tails⟩
    apply insides.readSource.bind
    intro list other _ _ _
    apply (Reading.Alike.require (findBody?_alike tails) _).bind
    rintro ⟨mode, before, body⟩ ⟨_, _, ending⟩ leftFound rightFound
      ⟨rfl, rfl, bodies⟩
    have leftHeaded := headed_of_findBody?
      (Reading.require_eq_ok_iff.mp leftFound)
    have rightHeaded := headed_of_findBody?
      (Reading.require_eq_ok_iff.mp rightFound)
    have headers : LookAlike (tail.take before) (following.take before) := {
      left := tails.left.of_cutsOut leftHeaded.cutsOut
      right := tails.right.of_cutsOut rightHeaded.cutsOut
      same := by
        rw [← take_shownText, ← take_shownText, tails.same] }
    apply (returnType?_alike tails leftHeaded rightHeaded).bind
    intro type another _ _ types
    apply bodies.dropFinalBlanks.readSource.bind
    intro text others _ _ _
    obtain ⟨comment, another, leftComment, rightComment, comments⟩ :=
      headers.findComment
    have language : languageOf (tail.take before) =
        languageOf (following.take before) := by
      rw [← languageOf_shownText, headers.same, languageOf_shownText]
    dsimp only
    rw [leftComment, rightComment, language]
    refine .read ?_
    simp [Procedure.shape, types, comments]

/-- A statement whose column list cannot be read without a fault. -/
def Table.Breaks (statement : Text) : Prop :=
  ∃ name written fault, HasList statement name written ∧
    Contents.read name.name written = .error fault

theorem Table.read_alike (same : mask first = mask second)
    (names : nameText? .table first = nameText? .table second)
    (leftSound : ¬ Breaks first) (rightSound : ¬ Breaks second) :
    Reading.Alike (fun one other => one.1.shape = other.1.shape)
      (Table.read first) (Table.read second) := by
  rw [Table.read, Table.read]
  apply (Reading.Alike.require
    ((lookAlike_cells same).readHead? .table) _).bind
  rintro ⟨flags, start⟩ ⟨_, begin⟩ leftHead rightHead ⟨rfl, starts⟩
  have leftStart := Reading.require_eq_ok_iff.mp leftHead
  have rightStart := Reading.require_eq_ok_iff.mp rightHead
  rw [nameText?_eq leftStart, nameText?_eq rightStart] at names
  apply (starts.readName .table names).bind
  rintro ⟨name, rest⟩ ⟨_, behind⟩ leftName rightName ⟨rfl, rests⟩
  have lists := rests.skipBlanks
  dsimp only
  rw [lists.startsWith_eq]
  split
  · apply (Reading.Alike.require lists.parenthesised? _).bind
    rintro ⟨inside, tail⟩ ⟨within, following⟩ leftList rightList
      ⟨insides, tails⟩
    apply insides.readSource.bind
    intro list other leftSource rightSource _
    have leftParts : HasList first name list :=
      ⟨inside, tail, ⟨start, rest, ⟨flags, leftStart, leftName⟩,
        Reading.require_eq_ok_iff.mp leftList⟩,
        Reading.ofFault_eq_ok_iff.mp leftSource⟩
    have rightParts : HasList second name other :=
      ⟨within, following, ⟨begin, behind, ⟨flags, rightStart, rightName⟩,
        Reading.require_eq_ok_iff.mp rightList⟩,
        Reading.ofFault_eq_ok_iff.mp rightSource⟩
    obtain ⟨comment, another, leftComment, rightComment, comments⟩ :=
      tails.findComment
    obtain ⟨keys, leftKeys⟩ := tails.left.readClusterBy
    obtain ⟨otherKeys, rightKeys⟩ := tails.right.readClusterBy
    cases leftContents : Contents.read name.name list with
    | error fault => exact absurd ⟨_, _, fault, leftParts, leftContents⟩ leftSound
    | ok contents =>
        cases rightContents : Contents.read name.name other with
        | error fault =>
            exact absurd ⟨_, _, fault, rightParts, rightContents⟩ rightSound
        | ok others =>
            dsimp only
            rw [leftComment, rightComment, leftKeys, rightKeys]
            refine .read ?_
            simp [Table.shape, comments]
  · exact .rejected _

/-! ## Where tables break -/

/-- A table breaks exactly where its column list does. -/
theorem Table.read_of_breaks {statement : Text} (breaks : Breaks statement) :
    ∃ fault, Table.read statement = .error (.broken fault) := by
  obtain ⟨name, written, fault, parts, broken⟩ := breaks
  obtain ⟨inside, tail, ⟨start, rest, ⟨flags, head, named⟩, list⟩, source⟩ :=
    parts
  have opens : startsWith (· == '(') (skipBlanks rest) = true := by
    obtain ⟨first, last, same, opening, -⟩ := exists_parentheses list
    rw [same]
    exact beq_iff_eq.mpr opening
  refine ⟨fault, ?_⟩
  rw [Table.read, head]
  change (readName .table start >>= _) = _
  rw [named]
  change (if startsWith (· == '(') (skipBlanks rest) then _ else _) = _
  rw [if_pos opens, list]
  change (readSource inside >>= _) = _
  rw [readSource, source]
  change (Reading.ofFault (Contents.read name.name written) >>= _) = _
  rw [broken]
  rfl

/-! ## Objects -/

namespace DdlObject

def shape : DdlObject → Shape
  | .table definition => definition.shape
  | .view definition => definition.shape
  | .procedure definition => definition.shape

/-- A statement that is neither read nor rejected. -/
def Breaks (object : ObjectKind) (statement : Text) : Prop :=
  ∃ fault, DdlObject.read object statement = .error (.broken fault)

/--
Statements that show the same and name the same object are read alike, unless
one of them breaks on the column list of a table, at an entry whose reference
a long s introduces.
-/
theorem read_alike_unless_long_reference (object : ObjectKind)
    (same : mask first = mask second)
    (names : nameText? object first = nameText? object second) :
    Reading.Alike (fun one other => one.1.kind = other.1.kind ∧
        one.1.shape = other.1.shape)
      (DdlObject.read object first) (DdlObject.read object second) ∨
    object = .table ∧ ∃ statement, (statement = first ∨ statement = second) ∧
      Breaks .table statement ∧ Table.HasLongReference statement := by
  cases object with
  | table =>
      have breaks : ∀ {statement : Text}, Table.Breaks statement →
          Breaks .table statement ∧ Table.HasLongReference statement := by
        intro statement broken
        obtain ⟨fault, fails⟩ := Table.read_of_breaks broken
        have read : DdlObject.read .table statement =
            .error (.broken fault) := by
          rw [DdlObject.read, fails]
          rfl
        exact ⟨⟨fault, read⟩, (DdlObject.hasLongReference_of_read read).2⟩
      by_cases left : Table.Breaks first
      · exact Or.inr ⟨rfl, first, Or.inl rfl, breaks left⟩
      · by_cases right : Table.Breaks second
        · exact Or.inr ⟨rfl, second, Or.inr rfl, breaks right⟩
        · exact Or.inl ((Table.read_alike same names left right).map
            fun _ _ shapes => ⟨rfl, shapes⟩)
  | view =>
      exact Or.inl ((View.read_alike same names).map
        fun _ _ shapes => ⟨rfl, shapes⟩)
  | procedure =>
      exact Or.inl ((Procedure.read_alike same names).map
        fun _ _ shapes => ⟨rfl, shapes⟩)

end DdlObject

end Readings

/-- A table whose default is a dollar body with the given text. -/
def tableWithDefault (inside : String) : Text :=
  ("CREATE TABLE t (a INT DEFAULT $$" : Text) ++ inside.toList ++
    ("$$)" : Text)

namespace DdlObject

/-- Two defaults of one length are read alike. -/
theorem read_alike_with_defaults :
    mask (tableWithDefault "'); --") = mask (tableWithDefault "b c _d") ∧
    nameText? .table (tableWithDefault "'); --") =
      nameText? .table (tableWithDefault "b c _d") ∧
    (Reading.Alike (fun one other => one.1.kind = other.1.kind ∧
          one.1.shape = other.1.shape)
        (DdlObject.read .table (tableWithDefault "'); --"))
        (DdlObject.read .table (tableWithDefault "b c _d")) ∨
      ObjectKind.table = .table ∧ ∃ statement,
        (statement = tableWithDefault "'); --" ∨
          statement = tableWithDefault "b c _d") ∧
        Breaks .table statement ∧ Table.HasLongReference statement) := by
  have same : mask (tableWithDefault "'); --") =
      mask (tableWithDefault "b c _d") := by decide +kernel
  have names : nameText? .table (tableWithDefault "'); --") =
      nameText? .table (tableWithDefault "b c _d") := by decide +kernel
  exact ⟨same, names, read_alike_unless_long_reference .table same names⟩

/-- What a dollar body holds decides whether its table is read at all. -/
theorem default_decides_whether_read :
    mask (tableWithDefault "______________________________") =
      mask (tableWithDefault ",FOREIGN KEY (a) REFERENCEſ t") ∧
    nameText? .table (tableWithDefault "______________________________") =
      nameText? .table (tableWithDefault ",FOREIGN KEY (a) REFERENCEſ t") ∧
    (DdlObject.read .table
      (tableWithDefault "______________________________")).isOk = true ∧
    DdlObject.read .table (tableWithDefault ",FOREIGN KEY (a) REFERENCEſ t") =
      .error (.broken .splitCharacter) := by
  refine ⟨?_, ?_, ?_, ?_⟩ <;> decide +kernel

end DdlObject

end Snowform
