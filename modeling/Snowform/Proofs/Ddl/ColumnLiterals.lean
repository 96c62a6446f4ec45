import Snowform.Proofs.Ddl.ColumnConstraints
import Snowform.Proofs.Ddl.QuotedLiterals

/-!
# Literals behind columns

The default and the comment of a column are joined again from words, until
their quotes and their parentheses close.  So a literal comes out with single
blanks, and a default with an open parenthesis goes on behind its closing
quote.  A literal is kept exactly if neither changes it.
-/

namespace Snowform

open Text Lexical

/-! ## Words of a literal -/

theorem spaced_append (first second : List Text) :
    spaced (first ++ second) = spaced first ++ spaced second :=
  List.flatMap_append

/-- The words of a literal, joined again. -/
theorem exists_words_stringLiteral (text : Text) :
    ∃ word others, words (stringLiteral text) = word :: others ∧
      word ++ spaced others = stringLiteral (respaced text) := by
  have ends : ∀ last ∈ (stringLiteral text).getLast?, isBlank last = false := by
    rw [getLast?_stringLiteral]
    rintro last ⟨⟩
    decide
  have joined := intercalate_words ends
  rw [respaced_stringLiteral, head?_stringLiteral,
    if_neg (by decide), List.nil_append] at joined
  cases parts : words (stringLiteral text) with
  | nil =>
      rw [parts] at joined
      cases joined
  | cons word others =>
      rw [parts, intercalate_cons] at joined
      exact ⟨word, others, rfl, joined⟩

/-- Behind a word of a literal an odd number of quotes follows. -/
theorem odd_count_of_later_words {text : Text} {before others : List Text}
    {last word : Text}
    (parts : words (stringLiteral text) =
      before ++ last :: word :: others) :
    (word ++ spaced others).count '\'' % 2 = 1 := by
  obtain ⟨first, rest, whole, joined⟩ := exists_words_stringLiteral text
  obtain ⟨between, rfl⟩ : ∃ between, rest = between ++ word :: others := by
    rw [whole] at parts
    cases before with
    | nil => exact ⟨[], (List.cons.inj parts).2⟩
    | cons head tail =>
        refine ⟨tail ++ [last], ?_⟩
        rw [List.append_assoc]
        exact (List.cons.inj parts).2
  have cut : stringLiteral (respaced text) =
      (first ++ spaced between) ++ ' ' :: (word ++ spaced others) := by
    rw [← joined, spaced_append, ← List.append_assoc]
    rfl
  have odd := odd_count_of_stringLiteral (by decide) cut
  have even := even_count_stringLiteral (respaced text)
  rw [cut, List.count_append, List.count_cons_of_ne (by decide)] at even
  omega

/-- Only visible characters are counted alike when blanks are joined. -/
theorem Text.countP_respaced {test : Char → Bool}
    (quiet : ∀ character, isBlank character = true → test character = false)
    (text : Text) : (respaced text).countP test = text.countP test := by
  induction text with
  | nil => rfl
  | cons character rest ih =>
      rw [respaced, List.countP_cons]
      cases blank : isBlank character with
      | true =>
          rw [if_pos rfl, quiet character blank]
          split
          · exact ih
          · rw [List.countP_cons, quiet ' ' (by decide), ih]
      | false => rw [if_neg Bool.false_ne_true, List.countP_cons, ih]

theorem parenthesisBalance_respaced (text : Text) :
    parenthesisBalance (respaced text) = parenthesisBalance text := by
  have quiet : ∀ {mark : Char}, isBlank mark = false → ∀ character,
      isBlank character = true → shows (· == mark) character = false := by
    intro mark visible character blank
    refine beq_false_of_ne ?_
    rintro rfl
    cases blank.symm.trans visible
  rw [parenthesisBalance, countP_respaced (quiet (by decide)),
    countP_respaced (quiet (by decide)), parenthesisBalance]

/-! ## Values -/

namespace Column

/-- A value takes the words up to the first place where nothing is open. -/
theorem extendValue_append {value : Text} {used rest : List Text}
    (opens : ∀ first, first <+: used → first ≠ used →
      isOpenValue (value ++ spaced first) = true)
    (ends : isOpenValue (value ++ spaced used) = false ∨ rest = []) :
    extendValue value (used ++ rest) = (value ++ spaced used, used.length) := by
  induction used generalizing value with
  | nil =>
      have whole : value ++ spaced [] = value := List.append_nil value
      rw [whole] at ends ⊢
      rcases ends with closed | rfl
      · cases rest with
        | nil => rfl
        | cons word others =>
            rw [List.nil_append, extendValue, closed]
            rfl
      · rfl
  | cons word others ih =>
      have next : ∀ list, value ++ spaced (word :: list) =
          (value ++ ' ' :: word) ++ spaced list := by
        simp [spaced]
      have starts := opens [] List.nil_prefix (List.cons_ne_nil _ _).symm
      have whole : value ++ spaced [] = value := List.append_nil value
      rw [whole] at starts
      rw [next] at ends ⊢
      have behind : extendValue (value ++ ' ' :: word) (others ++ rest) =
          ((value ++ ' ' :: word) ++ spaced others, others.length) := by
        refine ih ?_ ends
        intro first isPrefix different
        rw [← next]
        have longer : word :: first <+: word :: _ :=
          List.cons_prefix_cons.mpr ⟨rfl, isPrefix⟩
        exact opens (word :: first) longer fun same =>
          different (List.cons.inj same).2
      rw [List.cons_append, extendValue, if_pos starts, behind]
      rfl

/-- The value of a literal ends with it, unless a parenthesis is open then. -/
theorem readValue_stringLiteral (text : Text) (rest : List Text)
    (ends : parenthesisBalance text ≤ 0 ∨ rest = []) :
    readValue (words (stringLiteral text) ++ rest) =
      (some (stringLiteral (respaced text)),
        (words (stringLiteral text)).length) := by
  obtain ⟨word, others, parts, joined⟩ := exists_words_stringLiteral text
  have opens : ∀ first, first <+: others → first ≠ others →
      isOpenValue (word ++ spaced first) = true := by
    rintro first ⟨behind, rfl⟩ different
    cases behind with
    | nil => exact absurd (List.append_nil first).symm different
    | cons next more =>
        have cut : stringLiteral (respaced text) =
            (word ++ spaced first) ++ ' ' :: (next ++ spaced more) := by
          rw [← joined, spaced_append, ← List.append_assoc]
          rfl
        have odd := odd_count_of_stringLiteral (by decide) cut
        rw [isOpenValue, odd]
        rfl
  have closed : isOpenValue (word ++ spaced others) = false ∨ rest = [] := by
    refine ends.imp_left fun balanced => ?_
    rw [joined, isOpenValue, even_count_stringLiteral,
      parenthesisBalance_stringLiteral, parenthesisBalance_respaced]
    simpa using balanced
  rw [parts, List.cons_append, readValue, extendValue_append opens closed,
    joined]
  rfl

/-! ## Where types and defaults come from -/

theorem extendValue_open (value : Text) (list : List Text) :
    isOpenValue (extendValue value list).1 = false ∨
      (extendValue value list).1 = value ++ spaced list := by
  induction list generalizing value with
  | nil => exact .inr (List.append_nil value).symm
  | cons word others ih =>
      rw [extendValue]
      split
      next =>
        refine (ih (value ++ ' ' :: word)).imp_right fun all => ?_
        rw [all]
        simp [spaced]
      next closed => exact .inl (Bool.eq_false_iff.mpr closed)

/-- A value in which something is open takes all words. -/
theorem exists_words_of_readValue {list : List Text} {value : Text}
    (read : (readValue list).1 = some value)
    (opens : isOpenValue value = true) :
    ∃ word others, list = word :: others ∧ value = word ++ spaced others := by
  cases list with
  | nil => cases read
  | cons word others =>
      have same : (extendValue word others).1 = value := Option.some.inj read
      refine ⟨word, others, rfl, ?_⟩
      rcases extendValue_open word others with closed | all
      · rw [same, opens] at closed
        cases closed
      · rw [← same, all]

/-- Where the type and the default of a column may come from. -/
structure Progress.Keeps (progress : Progress) (list : List Text)
    (changed : Progress) : Prop where
  dataType : changed.entry.column.dataType = progress.entry.column.dataType
  defaultValue :
    changed.entry.column.defaultValue = progress.entry.column.defaultValue ∨
      ∃ word others, word :: others <:+ list ∧
        asciiUpper word = ("DEFAULT" : Text) ∧
        changed.entry.column.defaultValue = (readValue others).1

namespace Progress

theorem Keeps.refl {progress changed : Progress}
    (same : changed.entry.column = progress.entry.column) (list : List Text) :
    progress.Keeps list changed :=
  ⟨by rw [same], .inl (by rw [same])⟩

theorem keeps_readOther (progress : Progress) (word : Text)
    (others list : List Text) :
    progress.Keeps list (progress.readOther word others).1 := by
  refine Keeps.refl ?_ list
  rw [readOther]
  split
  next changed both read =>
    rw [readFlag?] at read
    split at read
    next => cases read
    next =>
      obtain ⟨⟨flags, later⟩, -, same⟩ := Option.map_eq_some_iff.mp read
      cases same
      rfl
  next => rfl

theorem keeps_readOption {progress changed : Progress} {word : Text}
    {others : List Text} {used : Nat}
    (read : progress.readOption word others = .ok (changed, used)) :
    progress.Keeps (word :: others) changed := by
  -- The result of every branch is looked at, so the statement is about results.
  let holds (result : Except Fault (Progress × Nat)) : Prop :=
    ∀ parts, result = .ok parts → progress.Keeps (word :: others) parts.1
  suffices every : holds (progress.readOption word others) from every _ read
  have same : ∀ (other : Progress) (used : Nat),
      other.entry.column = progress.entry.column →
        holds (.ok (other, used)) := by
    rintro other used same parts ⟨⟩
    exact Keeps.refl same _
  rw [Progress.readOption]
  dsimp only
  refine iteInduction (motive := holds) (fun _ => ?_) fun _ => ?_
  · rintro parts ⟨⟩
    exact ⟨rfl, .inl rfl⟩
  refine iteInduction (motive := holds) (fun _ => ?_) fun _ => ?_
  · rintro parts ⟨⟩
    exact ⟨rfl, .inl rfl⟩
  refine iteInduction (motive := holds) (fun keyword => ?_) fun _ => ?_
  · rintro parts ⟨⟩
    exact ⟨rfl, .inr ⟨word, others, List.suffix_refl _, keyword, rfl⟩⟩
  refine iteInduction (motive := holds) (fun _ => ?_) fun _ => ?_
  · rintro parts ⟨⟩
    exact ⟨rfl, .inl rfl⟩
  refine iteInduction (motive := holds) (fun _ => same _ _ rfl) fun _ => ?_
  refine iteInduction (motive := holds) (fun _ => same _ _ rfl) fun _ => ?_
  refine iteInduction (motive := holds) (fun _ => same _ _ rfl) fun _ => ?_
  refine iteInduction (motive := holds) (fun _ => same _ _ rfl) fun _ => ?_
  refine iteInduction (motive := holds) (fun _ => ?_) fun _ => ?_
  · intro parts result
    obtain ⟨found, -, rest⟩ := bind_eq_ok_iff.mp result
    cases found with
    | none => exact same _ _ rfl parts rest
    | some target =>
        exact same (progress.addConstraint _ _) _ rfl parts rest
  · rintro parts ⟨⟩
    exact progress.keeps_readOther word others _

theorem keeps_readOptions {progress changed : Progress} {list : List Text}
    {used : Nat} (read : progress.readOptions used list = .ok changed) :
    progress.Keeps list changed := by
  induction list generalizing progress used with
  | nil =>
      cases read
      exact Keeps.refl rfl []
  | cons word others ih =>
      -- Options behind the first ones are options of the whole list.
      have later : ∀ {before : Progress}, before.Keeps others changed →
          progress.Keeps (word :: others) before →
            progress.Keeps (word :: others) changed := by
        intro before second first
        refine ⟨second.dataType.trans first.dataType, ?_⟩
        rcases second.defaultValue with kept | ⟨key, rest, inside, found⟩
        · rw [kept]
          exact first.defaultValue
        · exact .inr ⟨key, rest, inside.trans (List.suffix_cons _ _), found⟩
      cases used with
      | succ used => exact later (ih read) (Keeps.refl rfl _)
      | zero =>
          obtain ⟨⟨next, count⟩, option, rest⟩ := bind_eq_ok_iff.mp read
          exact later (ih rest) (keeps_readOption option)

theorem readOption_default (progress : Progress) {others : List Text}
    {value : Option Text} {used : Nat}
    (read : readValue others = (value, used)) :
    progress.readOption "DEFAULT" others =
      .ok (progress.changeColumn ({ · with defaultValue := value }), used) := by
  have option : progress.readOption "DEFAULT" others =
      .ok (progress.changeColumn
        ({ · with defaultValue := (readValue others).1 }),
          (readValue others).2) := rfl
  rw [option, read]

theorem readOption_comment (progress : Progress) {others : List Text}
    {value : Option Text} {used : Nat}
    (read : readValue others = (value, used)) :
    progress.readOption "COMMENT" others =
      .ok (progress.changeColumn
        ({ · with comment := value.map commentText }), used) := by
  have option : progress.readOption "COMMENT" others =
      .ok (progress.changeColumn
        ({ · with comment := (readValue others).1.map commentText }),
          (readValue others).2) := rfl
  rw [option, read]

end Progress

theorem isPrefix_extendType (dataType : Text) (list : List Text) :
    dataType <+: (extendType dataType list).1 := by
  induction list generalizing dataType with
  | nil => exact List.prefix_refl dataType
  | cons word others ih =>
      rw [extendType]
      split
      · exact (List.prefix_append _ _).trans (ih _)
      · split
        · exact (List.prefix_append _ _).trans (ih _)
        · exact List.prefix_refl dataType

theorem readType_default (dataType : Text) (others : List Text) :
    readType dataType ("DEFAULT" :: others) =
      extendType dataType ("DEFAULT" :: others) := by
  have single : twoWordTypes.contains
      (asciiUpper dataType, asciiUpper "DEFAULT") = false := by
    simp [twoWordTypes, asciiUpper]
  rw [readType, single]
  rfl

theorem readType_of_closed {dataType : Text}
    (closed : parenthesisBalance dataType ≤ 0) (others : List Text) :
    readType dataType ("DEFAULT" :: others) =
      (dataType, ("DEFAULT" : Text) :: others) := by
  rw [readType_default, extendType, if_neg (by simpa using closed)]
  rfl

/-- A type with an open parenthesis takes the word behind it. -/
theorem readType_ne_of_open {dataType : Text}
    (opens : 0 < parenthesisBalance dataType) (others : List Text) :
    (readType dataType ("DEFAULT" :: others)).1 ≠ dataType := by
  intro same
  rw [readType_default, extendType, if_pos opens] at same
  have long :=
    (isPrefix_extendType (dataType ++ ' ' :: "DEFAULT") others).length_le
  rw [same, List.length_append, List.length_cons] at long
  omega

/-- The type and the default of a column that is read. -/
theorem keeps_of_read? {entry name first : Text} {others : List Text}
    {result : ColumnEntry}
    (parts : entryWords entry = name :: first :: others)
    (read : read? entry = .ok (some result)) :
    result.column.dataType = (readType first others).1 ∧
      (result.column.defaultValue = none ∨
        ∃ word rest, word :: rest <:+ (readType first others).2 ∧
          asciiUpper word = ("DEFAULT" : Text) ∧
          result.column.defaultValue = (readValue rest).1) := by
  rw [read?, parts] at read
  dsimp only at read
  generalize readType first others = typed at read ⊢
  obtain ⟨progress, options, rest⟩ := bind_eq_ok_iff.mp read
  cases rest
  have keeps := Progress.keeps_readOptions options
  exact ⟨keeps.dataType, keeps.defaultValue⟩

end Column

/-! ## Columns with literals -/

/-- Ways to write the name of a column. -/
inductive Column.IsName : Text → Prop where
  | quoted (name : Text) : IsName (quotedName name)
  | bare {word : Text} (isWord : IsWord word)
      (unquoted : word.head? ≠ some '"') : IsName word

/-- A column with a default and a comment, both of them literals. -/
structure LiteralColumn where
  name : Text
  dataType : Text
  defaultText : Text
  comment : Text

namespace LiteralColumn

/-- What stands behind the type. -/
def options (column : LiteralColumn) : Text :=
  ("DEFAULT" : Text) ++ ' ' :: (stringLiteral column.defaultText ++
    ' ' :: (("NOT NULL COMMENT" : Text) ++ ' ' :: stringLiteral column.comment))

def written (column : LiteralColumn) : Text :=
  column.name ++ ' ' :: (column.dataType ++ ' ' :: column.options)

/-- What is written, with both literals as they are. -/
def column (column : LiteralColumn) : Column where
  name := unquote column.name
  dataType := column.dataType
  nullable := false
  defaultValue := some (stringLiteral column.defaultText)
  comment := some column.comment

/-- The column with single blanks in its literals. -/
def respaced (column : LiteralColumn) : LiteralColumn :=
  { column with
    defaultText := Text.respaced column.defaultText
    comment := Text.respaced column.comment }

structure IsProper (column : LiteralColumn) : Prop where
  name : Column.IsName column.name
  dataType : IsWord column.dataType

/-- No parenthesis of the type or the default stays open. -/
structure IsClosed (column : LiteralColumn) : Prop where
  dataType : parenthesisBalance column.dataType ≤ 0
  defaultText : parenthesisBalance column.defaultText ≤ 0

end LiteralColumn

theorem Column.IsName.entryWords_append {name : Text} (isName : IsName name)
    {after : Text}
    (ends : ∀ last ∈ (' ' :: after).getLast?, isBlank last = false) :
    entryWords (name ++ ' ' :: after) = name :: words after := by
  have blank : isBlank ' ' = true := by decide
  cases isName with
  | quoted name =>
      rw [ColumnConstraint.entryWords_quotedName_append name
        (fun same => by cases same) ends, words_cons_blank blank]
  | bare isWord unquoted =>
      obtain ⟨first, others, rfl⟩ := List.exists_cons_of_ne_nil isWord.1
      have visible := isWord.2 first List.mem_cons_self
      have trims : trim (first :: others ++ ' ' :: after) =
          first :: others ++ ' ' :: after := by
        refine trim_eq_self ?_ ?_
        · rintro character ⟨⟩
          exact visible
        · rw [List.getLast?_append_cons]
          exact ends
      have spans : (first :: others ++ ' ' :: after).span
          (fun character => !isBlank character) =
            (first :: others, ' ' :: after) := by
        rw [List.span_eq_takeWhile_dropWhile,
          List.takeWhile_append_of_pos fun character member => by
            rw [isWord.2 character member]
            rfl,
          List.dropWhile_append_of_pos fun character member => by
            rw [isWord.2 character member]
            rfl]
        simp [blank]
      have start : trimStart (first :: others ++ ' ' :: after) =
          first :: others ++ ' ' :: after := by
        rw [trimStart, List.cons_append,
          List.dropWhile_cons_of_neg (Bool.eq_false_iff.mp visible)]
      have leading : leadingIdentifier (first :: others ++ ' ' :: after) =
          (first :: others, ' ' :: after) := by
        rw [leadingIdentifier, start]
        split
        next rest same =>
          rw [List.cons_append] at same
          exact absurd (congrArg some (List.cons.inj same).1) unquoted
        next => exact spans
      rw [entryWords, trims, leading]
      dsimp only
      rw [words_cons_blank blank]
      rfl

/-- Whatever a column ends with, its words are those behind its name. -/
theorem Column.IsName.entryWords_of_words {name : Text} (isName : IsName name)
    {after first : Text} {others : List Text}
    (parts : words after = first :: others) :
    entryWords (name ++ ' ' :: after) = name :: first :: others := by
  obtain ⟨blanks, all, same⟩ := exists_trimEnd after
  rw [same, words_append_blanks all] at parts
  have ends : ∀ last ∈ (' ' :: trimEnd after).getLast?,
      isBlank last = false := by
    cases known : trimEnd after with
    | nil =>
        rw [known] at parts
        cases parts
    | cons visible letters =>
        rw [List.getLast?_cons_cons, ← known]
        exact visible_last_trimEnd after
  have trimmed : trim (name ++ ' ' :: after) =
      trim (name ++ ' ' :: trimEnd after) := by
    have cut : name ++ ' ' :: after =
        (name ++ ' ' :: trimEnd after) ++ blanks := by
      rw [List.append_assoc, List.cons_append, ← same]
    rw [cut]
    exact trim_append_append (List.forall_mem_nil _) all _
  rw [← parts, ← isName.entryWords_append ends, entryWords, trimmed,
    entryWords]

namespace LiteralColumn

/-- The words behind the default. -/
def behindDefault (comment : Text) : List Text :=
  ("NOT" : Text) :: ("NULL" : Text) :: ("COMMENT" : Text) ::
    words (stringLiteral comment)

theorem words_options (column : LiteralColumn) :
    words column.options =
      ("DEFAULT" : Text) :: (words (stringLiteral column.defaultText) ++
        behindDefault column.comment) := by
  have blank : isBlank ' ' = true := by decide
  have key : words ("DEFAULT" : Text) = [("DEFAULT" : Text)] := by decide
  have between : words ("NOT NULL COMMENT" : Text) =
      [("NOT" : Text), ("NULL" : Text), ("COMMENT" : Text)] := by decide
  unfold options
  rw [words_append_blank blank, words_append_blank blank,
    words_append_blank blank, key, between]
  rfl

theorem entryWords_written {column : LiteralColumn}
    (proper : column.IsProper) :
    Column.entryWords column.written =
      column.name :: column.dataType :: words column.options := by
  have blank : isBlank ' ' = true := by decide
  refine proper.name.entryWords_of_words ?_
  rw [words_append_blank blank, words_of_isWord proper.dataType]
  rfl

/-- A column in which nothing stays open is read, with single blanks. -/
theorem read?_of_isClosed {column : LiteralColumn} (proper : column.IsProper)
    (closed : column.IsClosed) :
    Column.read? column.written =
      .ok (some ⟨column.respaced.column, [], []⟩) := by
  let start : Column.Progress :=
    ⟨⟨{ name := unquote column.name, dataType := column.dataType }, [], []⟩,
      none⟩
  let given := start.changeColumn ({ · with
    defaultValue := some (stringLiteral (Text.respaced column.defaultText)) })
  let required := given.changeColumn ({ · with nullable := false })
  have first := start.readOption_default
    (Column.readValue_stringLiteral column.defaultText
      (behindDefault column.comment) (.inl closed.defaultText))
  have second : given.readOptions 0 (behindDefault column.comment) =
      required.readOptions 0 (("COMMENT" : Text) ::
        words (stringLiteral column.comment)) := rfl
  have third := required.readOption_comment
    (Column.readValue_stringLiteral column.comment [] (.inr rfl))
  have text : Column.commentText
      (stringLiteral (Text.respaced column.comment)) =
        Text.respaced column.comment :=
    unquoteLiteral_stringLiteral _
  rw [List.append_nil, Option.map_some, text] at third
  have ended := (required.changeColumn ({ · with
    comment := some (Text.respaced column.comment) })).readOptions_used
      (words (stringLiteral column.comment)) []
  rw [List.append_nil] at ended
  rw [Column.read?, entryWords_written proper, words_options]
  dsimp only
  rw [Column.readType_of_closed closed.dataType]
  change (start.readOptions 0 (("DEFAULT" : Text) ::
    (words (stringLiteral column.defaultText) ++
      behindDefault column.comment)) >>= _) = _
  rw [Column.Progress.readOptions_of_readOption first,
    Column.Progress.readOptions_used]
  change (given.readOptions 0 (behindDefault column.comment) >>= _) = _
  rw [second, Column.Progress.readOptions_of_readOption third, ended]
  rfl

theorem count_spaced_cons (word : Text) (others : List Text) :
    (spaced (word :: others)).count '\'' =
      word.count '\'' + (spaced others).count '\'' := by
  have parts : spaced (word :: others) = ' ' :: (word ++ spaced others) := rfl
  rw [parts, List.count_cons_of_ne (by decide), List.count_append]

theorem even_count_behindDefault (comment : Text) :
    (spaced (behindDefault comment)).count '\'' % 2 = 0 := by
  obtain ⟨word, others, parts, joined⟩ := exists_words_stringLiteral comment
  have even := even_count_stringLiteral (Text.respaced comment)
  rw [← joined, List.count_append] at even
  have not : ("NOT" : Text).count '\'' = 0 := by decide
  have null : ("NULL" : Text).count '\'' = 0 := by decide
  have key : ("COMMENT" : Text).count '\'' = 0 := by decide
  rw [behindDefault, count_spaced_cons, count_spaced_cons, count_spaced_cons,
    not, null, key, parts, count_spaced_cons]
  omega

/--
No literal goes from the word behind a `DEFAULT` to the last word, unless it
is there that it starts and ends: the quotes do not come out even.
-/
theorem joined_ne_literal {text comment : Text} {before following : List Text}
    {key word : Text} (keyword : asciiUpper key = ("DEFAULT" : Text))
    (cut : before ++ key :: word :: following =
      ("DEFAULT" : Text) ::
        (words (stringLiteral text) ++ behindDefault comment)) :
    word ++ spaced following ≠ stringLiteral text := by
  intro same
  have even := even_count_stringLiteral text
  have notKey : ∀ other : Text, asciiUpper other ≠ ("DEFAULT" : Text) →
      key ≠ other := by
    rintro other differs rfl
    exact differs keyword
  cases before with
  | nil =>
      obtain ⟨first, others, parts, joined⟩ := exists_words_stringLiteral text
      rw [parts] at cut
      obtain ⟨-, cut⟩ := List.cons.inj cut
      obtain ⟨rfl, rfl⟩ := List.cons.inj cut
      change word ++ spaced (others ++ behindDefault comment) = _ at same
      rw [spaced_append, ← List.append_assoc, joined] at same
      have odd := odd_count_of_stringLiteral (by decide) same.symm
      have known := even_count_stringLiteral (Text.respaced text)
      omega
  | cons first before =>
      obtain ⟨-, cut⟩ := List.cons.inj cut
      rcases List.append_eq_append_iff.mp cut with
        ⟨later, inside, tail⟩ | ⟨later, -, tail⟩
      · match later with
        | [] => exact notKey "NOT" (by decide) (List.cons.inj tail).1
        | [_] =>
            obtain ⟨-, tail⟩ := List.cons.inj tail
            obtain ⟨rfl, -⟩ := List.cons.inj tail
            cases (List.cons.inj same).1
        | _ :: _ :: others =>
            obtain ⟨-, tail⟩ := List.cons.inj tail
            obtain ⟨rfl, rfl⟩ := List.cons.inj tail
            have odd := odd_count_of_later_words inside
            have rest := even_count_behindDefault comment
            change word ++ spaced (others ++ behindDefault comment) = _ at same
            rw [← same, spaced_append, ← List.append_assoc,
              List.count_append] at even
            omega
      · match later with
        | [] => exact notKey "NOT" (by decide) (List.cons.inj tail).1.symm
        | [_] =>
            obtain ⟨-, tail⟩ := List.cons.inj tail
            exact notKey "NULL" (by decide) (List.cons.inj tail).1.symm
        | [_, _] =>
            obtain ⟨-, tail⟩ := List.cons.inj tail
            obtain ⟨-, tail⟩ := List.cons.inj tail
            exact notKey "COMMENT" (by decide) (List.cons.inj tail).1.symm
        | _ :: _ :: _ :: others =>
            obtain ⟨-, tail⟩ := List.cons.inj tail
            obtain ⟨-, tail⟩ := List.cons.inj tail
            obtain ⟨-, tail⟩ := List.cons.inj tail
            have odd := odd_count_of_later_words tail
            rw [same] at odd
            omega

/-- A literal is only kept where no parenthesis stays open in front of it. -/
theorem isClosed_of_kept {column : LiteralColumn} (proper : column.IsProper)
    {entry : ColumnEntry}
    (read : Column.read? column.written = .ok (some entry))
    (kept : entry.column = column.column) : column.IsClosed := by
  have parts := entryWords_written proper
  rw [words_options] at parts
  obtain ⟨dataType, defaultValue⟩ := Column.keeps_of_read? parts read
  rw [kept] at dataType defaultValue
  have typed : parenthesisBalance column.dataType ≤ 0 := by
    by_contra opens
    exact Column.readType_ne_of_open (Int.not_le.mp opens) _ dataType.symm
  refine ⟨typed, ?_⟩
  by_contra opens
  have isOpen :
      Column.isOpenValue (stringLiteral column.defaultText) = true := by
    rw [Column.isOpenValue, parenthesisBalance_stringLiteral]
    simpa using Or.inr (Int.not_le.mp opens)
  rw [Column.readType_of_closed typed] at defaultValue
  rcases defaultValue with none | ⟨key, others, ⟨before, cut⟩, keyword, value⟩
  · cases none
  -- An open value goes up to the last word.
  obtain ⟨word, following, rfl, same⟩ :=
    Column.exists_words_of_readValue value.symm isOpen
  exact joined_ne_literal keyword cut same.symm

/-- A text is kept between blanks if it has no blanks but single spaces. -/
theorem respaced_eq_self_iff (column : LiteralColumn) :
    column.respaced.column = column.column ↔
      Text.respaced column.defaultText = column.defaultText ∧
        Text.respaced column.comment = column.comment := by
  constructor
  · intro same
    have defaults := congrArg Column.defaultValue same
    have comments := congrArg Column.comment same
    exact ⟨stringLiteral_injective (Option.some.inj defaults),
      Option.some.inj comments⟩
  · rintro ⟨defaults, comments⟩
    rw [respaced, defaults, comments]

/--
The literals of a column come out with single blanks if no parenthesis of the
type or the default stays open.  They are kept as they are written exactly if
this changes neither of them.
-/
theorem literals_kept_iff {column : LiteralColumn}
    (proper : column.IsProper) :
    (column.IsClosed → Column.read? column.written =
      .ok (some ⟨column.respaced.column, [], []⟩)) ∧
    ((∃ entry, Column.read? column.written = .ok (some entry) ∧
        entry.column = column.column) ↔
      column.IsClosed ∧
        Text.respaced column.defaultText = column.defaultText ∧
        Text.respaced column.comment = column.comment) := by
  refine ⟨read?_of_isClosed proper, ?_, ?_⟩
  · rintro ⟨entry, read, kept⟩
    have closed := isClosed_of_kept proper read kept
    rw [read?_of_isClosed proper closed] at read
    cases read
    exact ⟨closed, column.respaced_eq_self_iff.mp kept⟩
  · rintro ⟨closed, same⟩
    exact ⟨_, read?_of_isClosed proper closed,
      column.respaced_eq_self_iff.mpr same⟩

/-- A column with marks of every kind in its literals. -/
def markedColumn : LiteralColumn where
  name := quotedName "Order Date"
  dataType := "NUMBER(10,2)"
  defaultText := "it's (new), DEFAULT )"
  comment := "NOT NULL (a 'b"

/-- Quotes, parentheses and keywords inside of both literals are kept. -/
theorem literals_kept_markedColumn :
    ∃ entry, Column.read? markedColumn.written = .ok (some entry) ∧
      entry.column = markedColumn.column := by
  have typed : IsWord markedColumn.dataType :=
    ⟨by decide, visible_of_any (by decide)⟩
  have proper : markedColumn.IsProper := ⟨.quoted "Order Date", typed⟩
  exact (literals_kept_iff proper).2.mpr
    ⟨⟨by decide, by decide⟩, by decide, by decide⟩

/-- A column whose default has two blanks in a row. -/
def spacedColumn : LiteralColumn where
  name := "id"
  dataType := "VARCHAR"
  defaultText := "a  b"
  comment := "u"

/-- A default loses blanks, and one that opens a parenthesis goes on. -/
theorem spacedColumn_loses_blank :
    Column.read? spacedColumn.written = .ok (some
        ⟨{ spacedColumn.column with defaultValue := some "'a b'" }, [], []⟩) ∧
      Column.read? { spacedColumn with defaultText := "(" }.written = .ok (some
        ⟨{ name := "id", dataType := "VARCHAR"
           defaultValue := some "'(' NOT NULL COMMENT 'u'" }, [], []⟩) := by
  decide +kernel

end LiteralColumn

end Snowform
