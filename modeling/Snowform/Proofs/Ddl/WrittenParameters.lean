import Snowform.Proofs.Ddl.ListedStatements
import Snowform.Proofs.Ddl.LiteralParts
import Snowform.Proofs.Lexical.Spelling

/-!
# Parameters as they are written

A parameter is written as a quoted name, a type and perhaps a default that is
a string.  The type is a word, perhaps with two numbers in parentheses behind
it.  Names and defaults are any texts: no comma in them divides the list, no
parenthesis ends it and no word in them introduces a default.
-/

namespace Snowform

open Text Lexical

/-! ## Types -/

/-- A text of digits. -/
def IsDigits (text : Text) : Prop :=
  ∀ character ∈ text, character.isDigit = true

instance (text : Text) : Decidable (IsDigits text) :=
  List.decidableBAll _ text

/-- A type that is a word, perhaps with two numbers in parentheses. -/
structure WrittenType where
  word : Text
  size : Option (Text × Text) := none
  isWordText : IsWordText word
  other : keyword? "DEFAULT" word ≠ some []
  digits : ∀ numbers ∈ size, IsDigits (numbers.1 ++ numbers.2)

namespace WrittenType

/-- What stands behind the word of a type. -/
def sizeText : Option (Text × Text) → Text
  | none => []
  | some (first, second) => '(' :: (first ++ ',' :: second ++ [')'])

variable (type : WrittenType)

def text : Text :=
  type.word ++ sizeText type.size

theorem isWord_of_isDigit {character : Char}
    (digit : character.isDigit = true) : isWord character = true := by
  have ascii : isAsciiWord character = true :=
    isAsciiWord_iff.mpr (.inr (.inl (isDigit_iff_toNat.mp digit)))
  exact isWord_of_isAsciiWord ascii

/-- The numbers of a type have digits and a comma between them. -/
theorem isDigit_of_mem_numbers {first second : Text}
    (sized : type.size = some (first, second)) {character : Char}
    (member : character ∈ first ++ ',' :: second) :
    character.isDigit = true ∨ character = ',' := by
  have digit := type.digits (first, second) sized
  rw [List.mem_append, List.mem_cons] at member
  rcases member with inFirst | comma | inSecond
  · exact .inl (digit character (List.mem_append_left second inFirst))
  · exact .inr comma
  · exact .inl (digit character (List.mem_append_right first inSecond))

theorem isDigit_of_mem_sizeText {character : Char}
    (member : character ∈ sizeText type.size) :
    character.isDigit = true ∨ character ∈ ['(', ',', ')'] := by
  cases sized : type.size with
  | none =>
      rw [sized] at member
      cases member
  | some numbers =>
      rw [sized, sizeText, List.mem_cons, List.mem_append] at member
      rcases member with rfl | inside | closing
      · exact .inr (by decide)
      · refine (type.isDigit_of_mem_numbers sized inside).imp_right ?_
        rintro rfl
        decide
      · rw [List.mem_singleton.mp closing]
        exact .inr (by decide)

/-- A type is written with characters of words, parentheses and commas. -/
theorem isWord_of_mem_text {character : Char} (member : character ∈ type.text) :
    isWord character = true ∨ character ∈ ['(', ',', ')'] := by
  rcases List.mem_append.mp member with inWord | behind
  · exact .inl (type.isWordText.2 character inWord)
  · exact (type.isDigit_of_mem_sizeText behind).imp_left isWord_of_isDigit

theorem isBlank_of_mem_text {character : Char}
    (member : character ∈ type.text) : isBlank character = false := by
  have visible : ∀ punctuation ∈ ['(', ',', ')'],
      isBlank punctuation = false :=
    List.all_iff_forall_prop.mp (by decide)
  rcases type.isWord_of_mem_text member with word | punctuation
  · exact not_isBlank_of_isWord word
  · exact visible character punctuation

/-- A type has no blanks around it. -/
theorem trim_text : trim type.text = type.text :=
  trim_eq_self
    (fun _ first => type.isBlank_of_mem_text (List.mem_of_mem_head? first))
    (fun _ last => type.isBlank_of_mem_text (List.mem_of_mem_getLast? last))

theorem text_ne_nil : type.text ≠ [] :=
  List.append_ne_nil_of_left_ne_nil type.isWordText.1 _

theorem isStill_text : IsStill type.text := by
  have quiet : ∀ special ∈ ['\'', '"', '-', '/', '$', ';'],
      isWord special = false ∧ special ∉ ['(', ',', ')'] :=
    List.all_iff_forall_prop.mp (by decide)
  intro character member special
  obtain ⟨noWord, apart⟩ := quiet character special
  rcases type.isWord_of_mem_text member with word | punctuation
  · exact absurd (noWord.symm.trans word) (by decide)
  · exact apart punctuation

/-! ### In a list -/

/-- Characters of words are neither quotes nor parentheses nor commas. -/
theorem isWithout_of_isWord {text : Text}
    (words : ∀ character ∈ text, isWord character = true) :
    IsWithout ['\'', '"', '(', ')', ','] text := by
  have noWords : ∀ special ∈ ['\'', '"', '(', ')', ','],
      isWord special = false :=
    List.all_iff_forall_prop.mp (by decide)
  intro character member special
  have both := (noWords character special).symm.trans (words character member)
  cases both

theorem isWithout_numbers {first second : Text}
    (sized : type.size = some (first, second)) :
    IsWithout ['\'', '"', '(', ')'] (first ++ ',' :: second) := by
  have noWords : ∀ special ∈ ['\'', '"', '(', ')'],
      isWord special = false ∧ special ≠ ',' :=
    List.all_iff_forall_prop.mp (by decide)
  intro character member special
  obtain ⟨noWord, noComma⟩ := noWords character special
  rcases type.isDigit_of_mem_numbers sized member with digit | comma
  · exact absurd (noWord.symm.trans (isWord_of_isDigit digit)) (by decide)
  · exact noComma comma

/-- The comma between two numbers stands in parentheses. -/
theorem isUndivided_text : IsUndivided 0 type.text := by
  have word := isWithout_of_isWord type.isWordText.2
  refine (isUndivided_of_isWithout word).append ?_
  cases sized : type.size with
  | none => exact isWhole_nil
  | some numbers =>
      exact isUndivided_parenthesised
        (isUndivided_of_ne_zero (by decide) (type.isWithout_numbers sized))

theorem isBalanced_map_text : IsBalanced (type.text.map Cell.plain) := by
  have word := isWithout_of_isWord type.isWordText.2
  rw [text, List.map_append]
  refine (isBalanced_map_plain (word.mono (by decide))).append ?_
  cases sized : type.size with
  | none => exact isBalanced_nil
  | some numbers =>
      rw [sizeText, List.map_cons, List.map_append]
      exact (isBalanced_map_plain (type.isWithout_numbers sized)).parenthesised
        rfl rfl

/-! ### In front of a default -/

/-- A default starts with its keyword. -/
theorem keyedBy_defaultKeyword? :
    KeyedBy "DEFAULT" Procedure.defaultKeyword? := by
  intro behind ahead none
  rw [Procedure.defaultKeyword?, none]
  rfl

/-- The name of a type holds no keyword of its own. -/
theorem findFirst_word (behind : Text) {rest : Text}
    (ends : startsWith isWord rest = false) :
    findFirst Procedure.defaultKeyword? behind (type.word ++ rest) =
      findFirst Procedure.defaultKeyword? (type.word.reverse ++ behind)
        rest :=
  keyedBy_defaultKeyword?.findFirst_append
    (lacks_of_isWordText (by decide) type.isWordText type.other ends behind)

/-- The size of a type holds no keyword. -/
theorem findFirst_sizeText (behind rest : Text) :
    findFirst Procedure.defaultKeyword? behind (sizeText type.size ++ rest) =
      findFirst Procedure.defaultKeyword?
        ((sizeText type.size).reverse ++ behind) rest := by
  refine Procedure.startsIn_defaultKeyword?.findFirst_append ?_ behind rest
  refine fun character member => Bool.eq_false_iff.mpr fun same => ?_
  rcases type.isDigit_of_mem_sizeText member with digit | punctuation
  · have bounds := isDigit_iff_toNat.mp digit
    have unchanged : character.toUpper = character := by
      refine dif_neg fun small => ?_
      have letter : 97 ≤ character.toNat := small.1
      omega
    have same := eq_of_isKeywordLetter unchanged (by omega) same
    rw [← same] at digit
    cases digit
  · have others : ∀ punctuation ∈ ['(', ',', ')'],
        isKeywordLetter 'D' punctuation = false :=
      List.all_iff_forall_prop.mp (by decide)
    exact absurd ((others character punctuation).symm.trans same) (by decide)

/-- A type holds no default. -/
theorem findFirst_text (behind : Text) {rest : Text}
    (ends : startsWith isWord rest = false) :
    findFirst Procedure.defaultKeyword? behind (type.text ++ rest) =
      findFirst Procedure.defaultKeyword? (type.text.reverse ++ behind)
        rest := by
  have endsWord : startsWith isWord (sizeText type.size ++ rest) = false := by
    cases type.size with
    | none => exact ends
    | some numbers => rfl
  rw [text, List.append_assoc, type.findFirst_word behind endsWord,
    type.findFirst_sizeText, List.reverse_append, List.append_assoc]

end WrittenType

/-! ## Parameters -/

/-- A parameter with a name, a type and perhaps a default that is a string. -/
structure WrittenParameter where
  name : Text
  type : WrittenType
  default : Option Text := none

namespace WrittenParameter

/-- What introduces a default, and the default. -/
def defaultText : Option Text → Text
  | none => []
  | some content => " DEFAULT " ++ stringLiteral content

theorem defaultText_none : defaultText none = [] := rfl

theorem defaultText_some (content : Text) :
    defaultText (some content) = " DEFAULT " ++ stringLiteral content := rfl

variable (written : WrittenParameter)

def text : Text :=
  quotedName written.name ++
    ' ' :: (written.type.text ++ defaultText written.default)

/-- The parameter that is written. -/
def parameter : Parameter where
  name := written.name
  dataType := written.type.text
  defaultValue := written.default.map stringLiteral

/-- What a default is looked for in: the type, and what introduces it. -/
theorem findFirst_typed (type : WrittenType) (rest : Text)
    (ends : startsWith isWord rest = false) :
    findFirst Procedure.defaultKeyword? [] (' ' :: (type.text ++ rest)) =
      findFirst Procedure.defaultKeyword? (type.text.reverse ++ [' ']) rest := by
  rw [findFirst, Procedure.startsIn_defaultKeyword?.eq_none (by decide)]
  exact type.findFirst_text [' '] ends

/-- A written parameter starts with its name. -/
theorem leadingIdentifier_text :
    leadingIdentifier written.text = (quotedName written.name,
      ' ' :: (written.type.text ++ defaultText written.default)) :=
  leadingIdentifier_quotedName_append written.name (by simp)

/-- The default starts behind the word, whatever stands in it. -/
theorem findFirst_default (type : WrittenType) (content : Text) :
    findFirst Procedure.defaultKeyword? []
        (' ' :: (type.text ++ defaultText (some content))) =
      some (' ' :: (type.text.reverse ++ [' ']), (),
        ' ' :: stringLiteral content) := by
  have ends : startsWith isWord (defaultText (some content)) = false := rfl
  have blank : defaultText (some content) =
      ' ' :: ("DEFAULT " ++ stringLiteral content) := rfl
  rw [findFirst_typed type _ ends, blank, findFirst,
    Procedure.startsIn_defaultKeyword?.eq_none (by decide)]
  rfl

/-- A type by itself is followed by no default. -/
theorem findFirst_noDefault (type : WrittenType) :
    findFirst Procedure.defaultKeyword? []
      (' ' :: (type.text ++ defaultText none)) = none := by
  have ends : startsWith isWord (defaultText none) = false := rfl
  rw [findFirst_typed type _ ends]
  rfl

/-- A parameter is read back with its name, its type and its default. -/
theorem readParameter_text :
    Procedure.readParameter written.text = written.parameter := by
  obtain ⟨name, type, default⟩ := written
  have read := unquote_quotedName name
  rw [Procedure.readParameter, leadingIdentifier_text]
  dsimp only
  cases default with
  | none =>
      rw [findFirst_noDefault]
      dsimp only
      rw [defaultText_none, List.append_nil, trim_cons_blank, type.trim_text,
        read]
      rfl
  | some content =>
      have literal : trim (' ' :: stringLiteral content) =
          stringLiteral content := by
        rw [trim_cons_blank]
        exact trim_of_ends (head?_stringLiteral content)
          (getLast?_stringLiteral content) (by decide)
      have typed : trim ((' ' :: (type.text ++
          defaultText (some content))).take
            (' ' :: (type.text.reverse ++ [' '])).length) = type.text := by
        have front : ' ' :: (type.text ++ defaultText (some content)) =
            (' ' :: (type.text ++ [' '])) ++
              ("DEFAULT " ++ stringLiteral content) := by
          rw [List.cons_append, List.append_assoc]
          rfl
        have size : (' ' :: (type.text.reverse ++ [' '])).length =
            (' ' :: (type.text ++ [' '])).length := by
          simp
        have blank : ∀ character ∈ [' '], isBlank character = true :=
          List.forall_mem_singleton.mpr (by decide)
        rw [front, size, List.take_left, trim_cons_blank]
        exact (trim_append_append (List.forall_mem_nil _) blank
          type.text).trans type.trim_text
      rw [findFirst_default]
      dsimp only
      rw [typed, literal, read]
      rfl

/-! ### In a list -/

theorem isPart_defaultText (default : Option Text) :
    IsPart (defaultText default) := by
  cases default with
  | none => exact isPart_nil
  | some content => exact (isPart_stringLiteral content).code_append (by decide)

theorem isUndivided_defaultText (default : Option Text) :
    IsUndivided 0 (defaultText default) := by
  cases default with
  | none => exact isWhole_nil
  | some content =>
      have introduces : IsUndivided 0 " DEFAULT " :=
        isUndivided_of_isWithout (by decide)
      exact introduces.append (isUndivided_stringLiteral content)

theorem isBalanced_cells_defaultText (default : Option Text) :
    IsBalanced (cells (defaultText default)) := by
  cases default with
  | none => exact isBalanced_nil
  | some content =>
      have introduces : IsStill " DEFAULT " := by decide
      have plain : IsWithout ['\'', '"', '(', ')'] " DEFAULT " := by decide
      have phrase := (isPart_stringLiteral content).isPhrase
      rw [defaultText_some, cells_code_append phrase introduces]
      exact (isBalanced_map_plain plain).append
        (isBalanced_cells_stringLiteral content)

theorem startsBare_defaultText (default : Option Text) :
    StartsBare (defaultText default) := by
  cases default with
  | none => decide
  | some content =>
      rw [StartsBare, defaultText_some]
      simp

theorem isStill_typed (type : WrittenType) : IsStill (' ' :: type.text) :=
  List.forall_mem_cons.mpr ⟨by decide, type.isStill_text⟩

theorem isBalanced_cells_typed (type : WrittenType) :
    IsBalanced (cells (' ' :: type.text)) := by
  have blank : IsWithout ['\'', '"', '(', ')'] [' '] := by decide
  rw [cells_code (isStill_typed type)]
  exact (isBalanced_map_plain blank).append type.isBalanced_map_text

theorem isPart_text : IsPart written.text := by
  have behind := (isPart_defaultText written.default).code_append
    (isStill_typed written.type)
  exact (isPart_quotedName written.name).append behind (by simp [StartsBare])

/-- A written parameter closes what it opens. -/
theorem isBalanced_cells_text : IsBalanced (cells written.text) := by
  have introduces := isPart_defaultText written.default
  have typed := isStill_typed written.type
  refine (isPart_quotedName written.name).isBalanced_append
    (introduces.code_append typed) (by simp [StartsBare]) ?_ ?_
  · rw [cells_quotedName]
    exact isBalanced_cells_quotedRegion written.name
  · exact (isPart_code typed).isBalanced_append introduces
      (startsBare_defaultText written.default)
      (isBalanced_cells_typed written.type)
      (isBalanced_cells_defaultText written.default)

/-- A parameter ends in its type or in the quote of its default. -/
theorem exists_getLast?_typed (type : WrittenType) (default : Option Text) :
    ∃ last, (type.text ++ defaultText default).getLast? = some last ∧
      isBlank last = false := by
  cases default with
  | none =>
      refine ⟨type.text.getLast type.text_ne_nil, ?_,
        type.isBlank_of_mem_text (List.getLast_mem _)⟩
      rw [defaultText_none, List.append_nil]
      exact List.getLast?_eq_some_getLast _
  | some content =>
      refine ⟨'\'', ?_, by decide⟩
      rw [defaultText_some, List.getLast?_append, List.getLast?_append,
        getLast?_stringLiteral]
      rfl

/-- A parameter stands in a list as one entry. -/
theorem isEntry_text : IsEntry written.text where
  undivided := by
    have blank : IsUndivided 0 [' '] := isUndivided_of_isWithout (by decide)
    exact (isUndivided_quotedName written.name).append
      (blank.append (written.type.isUndivided_text.append
        (isUndivided_defaultText written.default)))
  trims := by
    obtain ⟨ending, isEnding, visible⟩ :=
      exists_getLast?_typed written.type written.default
    refine trim_quotedName_append_of_ends written.name fun last isLast => ?_
    rw [← List.singleton_append, List.getLast?_append, isEnding] at isLast
    cases isLast
    exact visible
  nonempty := List.append_ne_nil_of_left_ne_nil (List.cons_ne_nil _ _) _

end WrittenParameter

/-- Parameters are read back as they are written, in their order. -/
theorem Procedure.written_parameters_read_back
    (written : List WrittenParameter) :
    read ("CREATE PROCEDURE p(" ++
        ((", " : Text).intercalate (written.map WrittenParameter.text) ++
          ") RETURNS INT AS ''")) =
      .ok {
        name := { name := "p" }
        parameters := written.map WrittenParameter.parameter
        returnType := some "INT" } := by
  have part : IsPart ((", " : Text).intercalate
      (written.map WrittenParameter.text)) :=
    isPart_intercalate
      (List.forall_mem_map.mpr fun entry _ => entry.isPart_text)
  have balanced : IsBalanced (cells ((", " : Text).intercalate
      (written.map WrittenParameter.text))) :=
    isBalanced_cells_intercalate (List.forall_mem_map.mpr fun entry _ =>
      ⟨entry.isPart_text, entry.isBalanced_cells_text⟩)
  have entries : splitCommas ((", " : Text).intercalate
      (written.map WrittenParameter.text)) =
        written.map WrittenParameter.text :=
    splitCommas_intercalate
      (List.forall_mem_map.mpr fun entry _ => entry.isEntry_text)
  have parameters : readParameters ((", " : Text).intercalate
      (written.map WrittenParameter.text)) =
        written.map WrittenParameter.parameter := by
    rw [readParameters, part.isPhrase.stripComments_eq, entries, List.map_map]
    exact List.map_congr_left fun entry _ => entry.readParameter_text
  have front : ("CREATE PROCEDURE p(" : Text) =
      ("CREATE PROCEDURE p" : Text) ++ ['('] := rfl
  have back : (") RETURNS INT AS ''" : Text) = [')'] ++ emptyBody := rfl
  rw [← parameters, ← read_enclosed part balanced, front, back, enclosed]
  simp only [List.append_assoc, List.cons_append, List.nil_append]

/-- Quotes, commas, parentheses and words that mean something elsewhere. -/
example :
    let number : WrittenType :=
      ⟨"NUMBER", some ("10", "2"), by decide, by decide, by decide⟩
    let text : WrittenType := ⟨"VARCHAR", none, by decide, by decide, nofun⟩
    [WrittenParameter.mk "a\"b, (" number (some "it's  DEFAULT, -- )"),
        ⟨"DEFAULT", text, none⟩].map WrittenParameter.text =
      [("\"a\"\"b, (\" NUMBER(10,2) DEFAULT 'it''s  DEFAULT, -- )'" : Text),
        "\"DEFAULT\" VARCHAR"] := by
  decide

end Snowform
