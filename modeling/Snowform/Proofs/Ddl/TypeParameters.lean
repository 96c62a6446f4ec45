import Snowform.Proofs.Ddl.ColumnLiterals
import Snowform.Proofs.Ddl.References
import Snowform.Proofs.Text.Uppercase
import Mathlib.Data.Bool.AllAny

/-!
# Types with parameters

The parameters of a type stand in parentheses, behind a blank or attached to
its last word.  Behind a type of one word both are read as the same column,
since a word that starts with a parenthesis is attached to the type.  A type
of two words is only known by whole words: with parameters attached to the
second word, the type ends behind the first one.
-/

namespace Snowform

open Text Lexical

namespace Column

/-! ## Types of two words -/

section

variable {first second : Text}

theorem isUpper_of_mem_twoWordTypes
    (known : (asciiUpper first, asciiUpper second) ∈ twoWordTypes) :
    ∀ character ∈ first ++ second, character.toUpper.isUpper = true := by
  have capitals : ∀ pair ∈ twoWordTypes,
      (pair.1 ++ pair.2).all Char.isUpper = true := by decide
  intro character member
  refine List.all_eq_true.mp (capitals _ known) character.toUpper ?_
  rw [asciiUpper, asciiUpper, ← List.map_append]
  exact List.mem_map_of_mem member

theorem isWord_of_mem_twoWordTypes
    (known : (asciiUpper first, asciiUpper second) ∈ twoWordTypes) :
    IsWord first ∧ IsWord second := by
  have filled : ∀ pair ∈ twoWordTypes, pair.1 ≠ [] ∧ pair.2 ≠ [] := by decide
  have visible : ∀ character ∈ first ++ second,
      isBlank character = false := by
    intro character member
    have capital := isUpper_of_mem_twoWordTypes known character member
    refine Bool.eq_false_iff.mpr fun blank => ?_
    rw [toUpper_of_isBlank blank, isUpper_iff_toNat] at capital
    have bounds := toNat_of_isBlank blank
    omega
  rw [List.forall_mem_append] at visible
  have nonempty := filled _ known
  exact ⟨⟨fun empty => nonempty.1 (congrArg asciiUpper empty), visible.1⟩,
    ⟨fun empty => nonempty.2 (congrArg asciiUpper empty), visible.2⟩⟩

theorem plain_of_mem_twoWordTypes
    (known : (asciiUpper first, asciiUpper second) ∈ twoWordTypes) :
    ∀ character ∈ first ++ second, character ∉ ['(', ')'] := by
  have lower : ∀ mark ∈ ['(', ')'], mark.toUpper.isUpper = false :=
    List.all_iff_forall_prop.mp (by decide)
  intro character member parenthesis
  have capital := isUpper_of_mem_twoWordTypes known character member
  rw [lower character parenthesis] at capital
  cases capital

/-! ## Reading types -/

theorem readType_of_mem_twoWordTypes
    (known : (asciiUpper first, asciiUpper second) ∈ twoWordTypes)
    (rest : List Text) :
    readType first (second :: rest) =
      extendType (first ++ ' ' :: second) rest := by
  rw [readType, if_pos (List.contains_iff_mem.mpr known)]

/-- A parenthesis in one of its words shows that a type has only one. -/
theorem readType_of_opening {others : List Text}
    (opens : '(' ∈ first ∨ ∀ second ∈ others.head?, '(' ∈ second) :
    readType first others = extendType first others := by
  cases others with
  | nil => rfl
  | cons second rest =>
      refine if_neg fun known => ?_
      have member : '(' ∈ first ++ second :=
        List.mem_append.mpr (opens.imp_right fun here => here second rfl)
      exact plain_of_mem_twoWordTypes (List.contains_iff_mem.mp known) '('
        member List.mem_cons_self

end

/-- A word with an opening parenthesis belongs to the type in front of it. -/
theorem extendType_of_opening {dataType word : Text}
    (closed : parenthesisBalance dataType ≤ 0)
    (opens : word.head? = some '(') (others : List Text) :
    extendType dataType (word :: others) =
      extendType (dataType ++ word) others := by
  have starts : startsWith (· == '(') word = true := by
    rw [startsWith, opens]
    rfl
  rw [extendType, if_neg (Int.not_lt.mpr closed), if_pos starts]

/-- A type whose parentheses are closed ends in front of any other word. -/
theorem extendType_of_other {dataType : Text} {list : List Text}
    (closed : parenthesisBalance dataType ≤ 0)
    (other : ∀ word ∈ list.head?, word.head? ≠ some '(') :
    extendType dataType list = (dataType, list) := by
  cases list with
  | nil => rfl
  | cons word others =>
      have differs : ¬ startsWith (· == '(') word = true := by
        intro starts
        cases word with
        | nil => cases starts
        | cons first letters =>
            exact other _ rfl (congrArg some (beq_iff_eq.mp starts))
      rw [extendType, if_neg (Int.not_lt.mpr closed), if_neg differs]

/-! ## Parentheses that close at the end -/

/-- Of a number of open parentheses the last one closes where a text ends. -/
structure ClosesAtEnd (depth : Int) (text : Text) : Prop where
  opens : ∀ before behind, before ++ behind = text → behind ≠ [] →
    0 < depth + parenthesisBalance before
  closes : depth + parenthesisBalance text ≤ 0

theorem ClosesAtEnd.append {depth : Int} {first second : Text}
    (ends : ClosesAtEnd depth (first ++ second)) :
    ClosesAtEnd (depth + parenthesisBalance first) second := by
  constructor
  · rintro before behind rfl nonempty
    rw [Int.add_assoc, ← parenthesisBalance_append]
    exact ends.opens (first ++ before) behind (List.append_assoc ..) nonempty
  · rw [Int.add_assoc, ← parenthesisBalance_append]
    exact ends.closes

theorem ClosesAtEnd.pos_of_ne_nil {depth : Int} {text : Text}
    (ends : ClosesAtEnd depth text) (nonempty : text ≠ []) : 0 < depth := by
  have start := ends.opens [] text rfl nonempty
  rwa [parenthesisBalance_nil, Int.add_zero] at start

theorem parenthesisBalance_spaced_words {piece : Text}
    (visible : ∀ character ∈ piece, isBlank character = false) :
    parenthesisBalance (spaced (words piece)) = parenthesisBalance piece := by
  by_cases empty : piece = []
  · rw [empty]
    rfl
  · have single : spaced [piece] = [' '] ++ piece := List.append_nil _
    have blank : parenthesisBalance [' '] = 0 := by decide
    rw [words_of_isWord ⟨empty, visible⟩, single, parenthesisBalance_append,
      blank, Int.zero_add]

/-- Words inside of open parentheses belong to the type, one blank apart. -/
theorem extendType_piece {dataType piece : Text}
    (visible : ∀ character ∈ piece, isBlank character = false)
    (opens : piece ≠ [] → 0 < parenthesisBalance dataType)
    (list : List Text) :
    extendType dataType (words piece ++ list) =
      extendType (dataType ++ spaced (words piece)) list := by
  by_cases empty : piece = []
  · have nothing : dataType ++ spaced (words []) = dataType :=
      List.append_nil dataType
    rw [empty, nothing]
    rfl
  · have single : spaced [piece] = ' ' :: piece := List.append_nil _
    rw [words_of_isWord ⟨empty, visible⟩, single, List.singleton_append,
      extendType, if_pos (opens empty)]

/-- A type takes the words of the text in which its parentheses close. -/
theorem extendType_words {rest : List Text}
    (other : ∀ word ∈ rest.head?, word.head? ≠ some '(') {text : Text}
    {dataType : Text}
    (ends : ClosesAtEnd (parenthesisBalance dataType) text) :
    extendType dataType (words text ++ rest) =
      (dataType ++ spaced (words text), rest) := by
  induction text using separatedInduction isBlank generalizing dataType with
  | last piece visible =>
      have closed := ends.closes
      rw [← parenthesisBalance_spaced_words visible,
        ← parenthesisBalance_append] at closed
      rw [extendType_piece visible ends.pos_of_ne_nil,
        extendType_of_other closed other]
  | next piece separator text visible blank ih =>
      have opens : 0 < parenthesisBalance dataType :=
        ends.pos_of_ne_nil (List.append_ne_nil_of_right_ne_nil piece
          (List.cons_ne_nil separator text))
      have later : ClosesAtEnd
          (parenthesisBalance (dataType ++ spaced (words piece))) text := by
        have quiet : parenthesisBalance [separator] = 0 :=
          parenthesisBalance_of_blanks (List.forall_mem_singleton.mpr blank)
        have rest : ClosesAtEnd _ ([separator] ++ text) := ends.append
        have behind := rest.append
        rw [parenthesisBalance_append,
          parenthesisBalance_spaced_words visible]
        rwa [quiet, Int.add_zero] at behind
      rw [words_append_blank blank, List.append_assoc,
        extendType_piece visible fun _ => opens, ih later, spaced_append,
        List.append_assoc]

/-! ## Reading columns -/

/-- Two columns whose types and options are read alike are read alike. -/
theorem read?_eq_of_readType {entry other name first second : Text}
    {list more : List Text}
    (parts : entryWords entry = name :: first :: list)
    (otherParts : entryWords other = name :: second :: more)
    (same : readType first list = readType second more) :
    read? entry = read? other := by
  rw [read?, read?, parts, otherParts]
  dsimp only
  rw [same]

theorem exists_read?_eq_some {entry name first : Text} {others : List Text}
    (parts : entryWords entry = name :: first :: others) :
    ∃ result, read? entry = .ok (some result) := by
  obtain ⟨found, read⟩ := exists_read? entry
  rw [read]
  rw [read?, parts] at read
  obtain ⟨progress, -, rest⟩ := bind_eq_ok_iff.mp read
  cases rest
  exact ⟨_, rfl⟩

/-! ## Names of types -/

/-- The name of a type, without parameters. -/
inductive TypeName where
  | single (word : Text)
  | double (first second : Text)

namespace TypeName

def text : TypeName → Text
  | single word => word
  | double first second => first ++ ' ' :: second

/-- Any word, or one of the pairs of words that are known, in any case. -/
def IsProper : TypeName → Prop
  | single word => IsWord word
  | double first second =>
      (asciiUpper first, asciiUpper second) ∈ twoWordTypes

/-- Behind the words of a type, a word with a parenthesis belongs to it. -/
theorem exists_words {typeName : TypeName} (proper : typeName.IsProper) :
    ∃ first others, words typeName.text = first :: others ∧
      ∀ next rest, '(' ∈ next →
        readType first (others ++ next :: rest) =
          extendType typeName.text (next :: rest) := by
  cases typeName with
  | single word =>
      refine ⟨word, [], words_of_isWord proper, fun next rest opens => ?_⟩
      exact readType_of_opening (.inr fun second here => by
        cases here
        exact opens)
  | double first second =>
      have blank : isBlank ' ' = true := by decide
      have halves := isWord_of_mem_twoWordTypes proper
      refine ⟨first, [second], ?_, fun next rest _ =>
        readType_of_mem_twoWordTypes proper (next :: rest)⟩
      rw [text, words_append_blank blank, words_of_isWord halves.1,
        words_of_isWord halves.2]
      rfl

end TypeName

end Column

/-! ## Columns with parameters -/

/-- A column whose type has parameters. -/
structure ParameterisedColumn where
  name : Text
  typeName : Column.TypeName
  /-- What stands between the parentheses. -/
  parameters : Text
  /-- What stands behind the parameters, with the blanks in front of it. -/
  options : Text

namespace ParameterisedColumn

variable (column : ParameterisedColumn)

def list : Text :=
  '(' :: (column.parameters ++ [')'])

/-- The column with a blank in front of the parameters. -/
def apart : Text :=
  column.name ++ ' ' ::
    (column.typeName.text ++ ' ' :: (column.list ++ column.options))

/-- The column with the parameters attached to the type. -/
def attached : Text :=
  column.name ++ ' ' ::
    (column.typeName.text ++ (column.list ++ column.options))

structure IsProper : Prop where
  name : Column.IsName column.name
  typeName : column.typeName.IsProper
  options : ∀ first ∈ column.options.head?, isBlank first = true

/-- The parentheses of the parameters belong together. -/
structure IsMatched : Prop where
  typeName : parenthesisBalance column.typeName.text = 0
  opens : ∀ before, before <+: column.parameters →
    0 ≤ parenthesisBalance before
  closes : parenthesisBalance column.parameters = 0
  options : ∀ word ∈ (words column.options).head?, word.head? ≠ some '('

/-! ## The words of the parameters -/

/-- The first word of the parameters. -/
def opening : Text :=
  column.list.takeWhile fun character => !isBlank character

/-- The parameters behind their first word. -/
def further : Text :=
  column.list.dropWhile fun character => !isBlank character

/-- The words behind the first one of the parameters. -/
def behind : List Text :=
  words column.further ++ words column.options

theorem opening_append_further :
    column.opening ++ column.further = column.list :=
  List.takeWhile_append_dropWhile

theorem head?_opening : column.opening.head? = some '(' := by
  rw [opening, list, List.takeWhile_cons_of_pos (by decide)]
  rfl

theorem opening_mem_opening : '(' ∈ column.opening :=
  List.mem_of_mem_head? column.head?_opening

theorem isWord_opening : IsWord column.opening := by
  refine ⟨List.ne_nil_of_mem column.opening_mem_opening, ?_⟩
  intro character member
  have visible := List.mem_takeWhile_imp member
  rwa [Bool.not_eq_true'] at visible

theorem isBlank_of_mem_head?_further :
    ∀ first ∈ column.further.head?, isBlank first = true := by
  intro first here
  have stops := List.head?_dropWhile_not
    (fun character => !isBlank character) column.list
  rw [← further, here] at stops
  simpa using stops

variable {column}

/-- What stands in front of the parameters makes their first word longer. -/
theorem words_append_list (proper : column.IsProper) {before : Text}
    (visible : ∀ character ∈ before, isBlank character = false) :
    words (before ++ (column.list ++ column.options)) =
      (before ++ column.opening) :: column.behind := by
  have cut : before ++ (column.list ++ column.options) =
      (before ++ column.opening) ++ (column.further ++ column.options) := by
    rw [← column.opening_append_further]
    simp only [List.append_assoc]
  have starts : ∀ first ∈ (column.further ++ column.options).head?,
      isBlank first = true := by
    intro first here
    rw [List.head?_append] at here
    rcases Option.or_eq_some_iff.mp here with inFurther | ⟨-, inOptions⟩
    · exact column.isBlank_of_mem_head?_further first inFurther
    · exact proper.options first inOptions
  have isWord : IsWord (before ++ column.opening) :=
    ⟨List.append_ne_nil_of_right_ne_nil before column.isWord_opening.1,
      List.forall_mem_append.mpr ⟨visible, column.isWord_opening.2⟩⟩
  rw [cut, words_append_of_starts starts, words_of_isWord isWord,
    words_append_of_starts proper.options]
  rfl

/-- The parameters with single blanks between their words. -/
theorem opening_append_spaced :
    column.opening ++ spaced (words column.further) =
      respaced column.list := by
  have ends : ∀ last ∈ column.list.getLast?, isBlank last = false := by
    rw [list, ← List.cons_append, List.getLast?_concat]
    rintro last ⟨⟩
    decide
  have joined := intercalate_words ends
  have parts : words column.list = column.opening :: words column.further := by
    rw [← column.opening_append_further,
      words_append_of_starts column.isBlank_of_mem_head?_further,
      words_of_isWord column.isWord_opening]
    rfl
  rw [parts, intercalate_cons] at joined
  exact joined

/-- Behind their first word the parameters close at their end. -/
theorem closesAtEnd_further (isMatched : column.IsMatched) :
    Column.ClosesAtEnd (parenthesisBalance column.opening)
      column.further := by
  have opened : parenthesisBalance ['('] = 1 := by decide
  have closed : parenthesisBalance [')'] = -1 := by decide
  have whole : Column.ClosesAtEnd 1 (column.parameters ++ [')']) := by
    constructor
    · intro before behind cut nonempty
      rcases List.prefix_concat_iff.mp ⟨behind, cut⟩ with same | isPrefix
      · rw [same] at cut
        exact absurd (List.append_right_eq_self.mp cut) nonempty
      · have early := isMatched.opens before isPrefix
        omega
    · rw [parenthesisBalance_append, isMatched.closes, closed]
      decide
  obtain ⟨more, starts⟩ := List.head?_eq_some_iff.mp column.head?_opening
  have cut := column.opening_append_further
  rw [starts, list, List.cons_append, List.cons_inj_right] at cut
  rw [← cut] at whole
  rw [starts, parenthesisBalance_cons, opened]
  exact whole.append

/-! ## The words of both columns -/

theorem exists_entryWords_apart (proper : column.IsProper) :
    ∃ first others,
      Column.entryWords column.apart = column.name :: first :: others ∧
      Column.readType first others = Column.extendType column.typeName.text
        (column.opening :: column.behind) := by
  have blank : isBlank ' ' = true := by decide
  obtain ⟨first, others, parts, read⟩ :=
    Column.TypeName.exists_words proper.typeName
  have list : words (column.list ++ column.options) =
      column.opening :: column.behind :=
    words_append_list proper (List.forall_mem_nil _)
  have all : words (column.typeName.text ++
      ' ' :: (column.list ++ column.options)) =
        first :: (others ++ column.opening :: column.behind) := by
    rw [words_append_blank blank, parts, list]
    rfl
  refine ⟨first, _, ?_, read _ _ column.opening_mem_opening⟩
  rw [apart, proper.name.entryWords_of_words all]

/-- Behind a type of one word the parameters are a part of that word. -/
theorem entryWords_attached_of_single (proper : column.IsProper)
    {word : Text} (single : column.typeName = .single word) :
    Column.entryWords column.attached =
      column.name :: (word ++ column.opening) :: column.behind := by
  have isWord := proper.typeName
  rw [single] at isWord
  have all := words_append_list proper isWord.2
  rw [attached, single, Column.TypeName.text,
    proper.name.entryWords_of_words all]

/-- Behind a type of two words the parameters are a part of the second one. -/
theorem entryWords_attached_of_double (proper : column.IsProper)
    {first second : Text} (double : column.typeName = .double first second) :
    Column.entryWords column.attached =
      column.name :: first :: (second ++ column.opening) ::
        column.behind := by
  have blank : isBlank ' ' = true := by decide
  have known := proper.typeName
  rw [double] at known
  have halves := Column.isWord_of_mem_twoWordTypes known
  have all : words ((first ++ ' ' :: second) ++
      (column.list ++ column.options)) =
        first :: (second ++ column.opening) :: column.behind := by
    rw [List.append_assoc, List.cons_append, words_append_blank blank,
      words_of_isWord halves.1, words_append_list proper halves.2.2]
    rfl
  rw [attached, double, Column.TypeName.text,
    proper.name.entryWords_of_words all]

/-! ## What is read -/

/-- Attached parameters are parameters of a type of one word. -/
theorem read?_attached (proper : column.IsProper) {word : Text}
    (single : column.typeName = .single word)
    (closed : parenthesisBalance word ≤ 0) :
    Column.read? column.attached = Column.read? column.apart := by
  obtain ⟨first, others, parts, read⟩ := exists_entryWords_apart proper
  refine Column.read?_eq_of_readType
    (entryWords_attached_of_single proper single) parts ?_
  rw [read, single, Column.TypeName.text,
    Column.extendType_of_opening closed column.head?_opening]
  exact Column.readType_of_opening
    (.inl (List.mem_append_right word column.opening_mem_opening))

/-- The type with its parameters, if their parentheses belong together. -/
theorem extendType_typeName (isMatched : column.IsMatched) :
    (Column.extendType column.typeName.text
      (column.opening :: column.behind)).1 =
        column.typeName.text ++ respaced column.list := by
  have closes := closesAtEnd_further isMatched
  rw [← Int.zero_add (parenthesisBalance column.opening),
    ← isMatched.typeName, ← parenthesisBalance_append] at closes
  rw [Column.extendType_of_opening (Int.le_of_eq isMatched.typeName)
      column.head?_opening, behind,
    Column.extendType_words isMatched.options closes, List.append_assoc,
    opening_append_spaced]

/-- With parameters attached to it, a second word does not continue a type. -/
theorem readType_of_double (proper : column.IsProper) {first second : Text}
    (double : column.typeName = .double first second) :
    (Column.readType first
      ((second ++ column.opening) :: column.behind)).1 = first := by
  have known := proper.typeName
  rw [double] at known
  have plain := Column.plain_of_mem_twoWordTypes known
  have isWord := (Column.isWord_of_mem_twoWordTypes known).2
  have balance : parenthesisBalance first = 0 :=
    parenthesisBalance_eq_zero (List.forall_mem_append.mp plain).1
  have other : (second ++ column.opening).head? ≠ some '(' := by
    rw [List.head?_append_of_ne_nil second isWord.1]
    intro starts
    exact plain '(' (List.mem_append_right first
      (List.mem_of_mem_head? starts)) List.mem_cons_self
  rw [Column.readType_of_opening (.inr _),
    Column.extendType_of_other (Int.le_of_eq balance)]
  · rintro word ⟨⟩
    exact other
  · rintro word ⟨⟩
    exact List.mem_append_right second column.opening_mem_opening

/-- While a parenthesis is open, words are joined with a blank. -/
theorem extendType_append_ne {word : Text}
    (opens : 0 < parenthesisBalance word) (list : List Text) :
    (Column.extendType (word ++ column.opening) list).1 ≠
      (Column.extendType word (column.opening :: list)).1 := by
  obtain ⟨more, starts⟩ := List.head?_eq_some_iff.mp column.head?_opening
  obtain ⟨_, joined⟩ :=
    Column.isPrefix_extendType (word ++ column.opening) list
  obtain ⟨_, parted⟩ :=
    Column.isPrefix_extendType (word ++ ' ' :: column.opening) list
  rw [Column.extendType, if_pos opens, ← joined, ← parted, starts,
    List.append_assoc, List.append_assoc]
  intro same
  cases (List.cons.inj (List.append_cancel_left same)).1

/-- The type of a column takes the parameters that stand apart from it. -/
theorem dataType_apart (proper : column.IsProper) {apart : ColumnEntry}
    (read : Column.read? column.apart = .ok (some apart)) :
    apart.column.dataType = (Column.extendType column.typeName.text
      (column.opening :: column.behind)).1 := by
  obtain ⟨first, others, parts, readType⟩ := exists_entryWords_apart proper
  rw [(Column.keeps_of_read? parts read).1, readType]

theorem exists_read?_apart (proper : column.IsProper) :
    ∃ apart, Column.read? column.apart = .ok (some apart) := by
  obtain ⟨first, others, parts, -⟩ := exists_entryWords_apart proper
  exact Column.exists_read?_eq_some parts

theorem dataType_attached_of_single (proper : column.IsProper) {word : Text}
    (single : column.typeName = .single word) {attached : ColumnEntry}
    (read : Column.read? column.attached = .ok (some attached)) :
    attached.column.dataType =
      (Column.extendType (word ++ column.opening) column.behind).1 := by
  have parts := entryWords_attached_of_single proper single
  rw [(Column.keeps_of_read? parts read).1, Column.readType_of_opening
    (.inl (List.mem_append_right word column.opening_mem_opening))]

/-- A type of two words loses the second one to its parameters. -/
theorem dataType_attached_of_double (proper : column.IsProper)
    {first second : Text} (double : column.typeName = .double first second)
    {attached : ColumnEntry}
    (read : Column.read? column.attached = .ok (some attached)) :
    attached.column.dataType = first := by
  have parts := entryWords_attached_of_double proper double
  rw [(Column.keeps_of_read? parts read).1, readType_of_double proper double]

theorem exists_read?_attached (proper : column.IsProper) :
    ∃ attached, Column.read? column.attached = .ok (some attached) := by
  cases known : column.typeName with
  | single word =>
      exact Column.exists_read?_eq_some
        (entryWords_attached_of_single proper known)
  | double first second =>
      exact Column.exists_read?_eq_some
        (entryWords_attached_of_double proper known)

/-- The types differ but for a type of one word with no open parenthesis. -/
theorem exists_single_of_same_type (proper : column.IsProper)
    {attached apart : ColumnEntry}
    (readAttached : Column.read? column.attached = .ok (some attached))
    (readApart : Column.read? column.apart = .ok (some apart))
    (same : attached.column.dataType = apart.column.dataType) :
    ∃ word, column.typeName = .single word ∧
      parenthesisBalance word ≤ 0 := by
  rw [dataType_apart proper readApart] at same
  cases known : column.typeName with
  | single word =>
      refine ⟨word, rfl, Int.not_lt.mp fun opens => ?_⟩
      rw [dataType_attached_of_single proper known readAttached, known] at same
      exact extendType_append_ne opens _ same
  | double first second =>
      rw [dataType_attached_of_double proper known readAttached, known] at same
      have longer := (Column.isPrefix_extendType (first ++ ' ' :: second)
        (column.opening :: column.behind)).length_le
      rw [Column.TypeName.text] at same
      rw [← same, List.length_append, List.length_cons] at longer
      omega

/--
Attached parameters make no difference exactly behind a type of one word in
which no parenthesis stays open.  Of a type of two words they leave the first
word.  Behind a blank, parameters whose parentheses belong together come out
attached to the type, with single blanks.
-/
theorem attached_eq_apart_iff (proper : column.IsProper) :
    ∃ attached apart,
      Column.read? column.attached = .ok (some attached) ∧
      Column.read? column.apart = .ok (some apart) ∧
      (attached = apart ↔ ∃ word, column.typeName = .single word ∧
        parenthesisBalance word ≤ 0) ∧
      (column.IsMatched → apart.column.dataType =
        column.typeName.text ++ respaced column.list) ∧
      ∀ first second, column.typeName = .double first second →
        attached.column.dataType = first := by
  obtain ⟨attached, readAttached⟩ := exists_read?_attached proper
  obtain ⟨apart, readApart⟩ := exists_read?_apart proper
  refine ⟨attached, apart, readAttached, readApart, ⟨?_, ?_⟩, ?_, ?_⟩
  · rintro rfl
    exact exists_single_of_same_type proper readAttached readApart rfl
  · rintro ⟨word, single, closed⟩
    have same := read?_attached proper single closed
    rw [readAttached, readApart] at same
    exact Option.some.inj (Except.ok.inj same)
  · intro isMatched
    rw [dataType_apart proper readApart, extendType_typeName isMatched]
  · intro first second double
    exact dataType_attached_of_double proper double readAttached

/-- A column with blanks in the parameters of its type. -/
def amountColumn : ParameterisedColumn where
  name := "amount"
  typeName := .single "NUMBER"
  parameters := " 38,\n 0 "
  options := " NOT NULL UNIQUE"

/--
The parameters are read alike behind a blank, with their blanks made alike.
-/
theorem attached_eq_apart_amountColumn :
    ∃ entry, Column.read? amountColumn.attached = .ok (some entry) ∧
      Column.read? amountColumn.apart = .ok (some entry) ∧
      entry.column.dataType = "NUMBER( 38, 0 )" := by
  have proper : amountColumn.IsProper :=
    ⟨.bare ⟨by decide, visible_of_any (by decide)⟩ (by decide),
      ⟨by decide, visible_of_any (by decide)⟩, by rintro first ⟨⟩; decide⟩
  have isMatched : amountColumn.IsMatched := by
    have plain : ∀ character ∈ amountColumn.parameters,
        character ∉ ['(', ')'] :=
      List.all_iff_forall_prop.mp (by decide)
    refine ⟨by decide, fun before isPrefix => ?_, by decide, by decide⟩
    exact Int.le_of_eq (parenthesisBalance_eq_zero fun character member =>
      plain character (isPrefix.subset member)).symm
  obtain ⟨attached, apart, readAttached, readApart, same, typed, -⟩ :=
    attached_eq_apart_iff proper
  cases same.mpr ⟨_, rfl, by decide⟩
  exact ⟨_, readAttached, readApart, typed isMatched⟩

/-- A column with a type of two words. -/
def varyingColumn : ParameterisedColumn where
  name := "c"
  typeName := .double "CHARACTER" "VARYING"
  parameters := "50"
  options := []

/-- Attached parameters cut a type of two words in half. -/
theorem varyingColumn_cut_in_half :
    Column.read? varyingColumn.attached = .ok (some
        ⟨{ name := "c", dataType := "CHARACTER" }, [], ["VARYING(50)"]⟩) ∧
      Column.read? varyingColumn.apart = .ok (some
        ⟨{ name := "c", dataType := "CHARACTER VARYING(50)" }, [], []⟩) := by
  decide +kernel

end ParameterisedColumn

end Snowform
