import Snowform.Proofs.Ddl.CommentLiterals

/-!
# Clauses as they are written

Between its parameters and its body a procedure says what it returns, in which
language it is written, what it is for and whose rights it runs with.  A return
type is a word, perhaps with a list in parentheses behind it, in which words,
numbers and commas stand and further lists.

No clause spells the keyword of another one, so that every search passes over
the clauses that it is not for.  Only the lists of a return type may hold the
keyword of the language, which is then found where a parenthesis is open.
-/

namespace Snowform

open Text Lexical

/-! ## Words and lists -/

/-- A word of ASCII letters, digits and underscores that no digit starts. -/
structure IsIdentifier (word : Text) : Prop where
  starts : word.head?.any (fun first => !first.isDigit) = true
  ascii : ∀ character ∈ word, isAsciiWord character = true

instance (word : Text) : Decidable (IsIdentifier word) :=
  have : Decidable (∀ character ∈ word, isAsciiWord character = true) :=
    List.decidableBAll _ word
  decidable_of_iff (_ ∧ ∀ character ∈ word, isAsciiWord character = true)
    ⟨fun both => ⟨both.1, both.2⟩, fun word => ⟨word.starts, word.ascii⟩⟩

section

variable {word : Text} (identifier : IsIdentifier word)

include identifier

theorem IsIdentifier.isWordText : IsWordText word := by
  refine ⟨?_, fun character member =>
    isWord_of_isAsciiWord (identifier.ascii character member)⟩
  rintro rfl
  cases identifier.starts

theorem IsIdentifier.spelled_eq : spelled word = [word] :=
  spelled_word identifier.isWordText.2

end

/-- Whether a character stands in a list of types outside of parentheses. -/
def isListCharacter (character : Char) : Bool :=
  isAsciiWord character || isBlank character || character == ','

/-- Words, numbers, commas and blanks, and such lists in parentheses. -/
inductive IsTypeList : Text → Prop where
  | nil : IsTypeList []
  | plain {character : Char} {rest : Text}
      (listed : isListCharacter character = true) (behind : IsTypeList rest) :
      IsTypeList (character :: rest)
  | list {inside rest : Text} (within : IsTypeList inside)
      (behind : IsTypeList rest) :
      IsTypeList ('(' :: (inside ++ ')' :: rest))

theorem isListCharacter_cases {character : Char}
    (listed : isListCharacter character = true) :
    isWord character = true ∨ isBlank character = true ∨ character = ',' := by
  rw [isListCharacter, Bool.or_eq_true, Bool.or_eq_true, beq_iff_eq,
    or_assoc] at listed
  exact listed.imp_left isWord_of_isAsciiWord

/-- No mark but the comma is listed. -/
theorem not_isListCharacter {mark : Char} (noWord : isWord mark = false)
    (visible : isBlank mark = false) (noComma : mark ≠ ',') :
    isListCharacter mark = false := by
  rw [Bool.eq_false_iff]
  intro listed
  rcases isListCharacter_cases listed with word | blank | comma
  · exact absurd (noWord.symm.trans word) (by decide)
  · exact absurd (visible.symm.trans blank) (by decide)
  · exact noComma comma

theorem parenthesisBalance_of_listed {character : Char}
    (listed : isListCharacter character = true) :
    parenthesisBalance [Cell.plain character] = 0 := by
  have others : ∀ mark ∈ ['(', ')'], isListCharacter mark = false :=
    List.all_iff_forall_prop.mp (by decide)
  apply parenthesisBalance_eq_zero
  rw [List.forall_mem_singleton]
  intro mark
  exact absurd ((others character mark).symm.trans listed) (by decide)

namespace IsTypeList

/-- Characters of lists in front of a list of types make such a list. -/
theorem plain_append {code rest : Text}
    (listed : ∀ character ∈ code, isListCharacter character = true)
    (behind : IsTypeList rest) : IsTypeList (code ++ rest) := by
  induction code with
  | nil => exact behind
  | cons character others ih =>
      rw [List.forall_mem_cons] at listed
      exact .plain listed.1 (ih listed.2)

variable {text : Text} (types : IsTypeList text)

include types

theorem listed_or_parenthesis {character : Char} (member : character ∈ text) :
    isListCharacter character = true ∨ character ∈ ['(', ')'] := by
  induction types with
  | nil => cases member
  | plain listed behind ih =>
      rcases List.mem_cons.mp member with rfl | later
      · exact .inl listed
      · exact ih later
  | list within behind ihWithin ihBehind =>
      rw [List.mem_cons, List.mem_append, List.mem_cons] at member
      rcases member with rfl | inside | rfl | later
      · exact .inr (by decide)
      · exact ihWithin inside
      · exact .inr (by decide)
      · exact ihBehind later

theorem isStill : IsStill text := by
  have others : ∀ special ∈ ['\'', '"', '-', '/', '$', ';'],
      isWord special = false ∧ isBlank special = false ∧ special ≠ ',' ∧
        special ∉ ['(', ')'] :=
    List.all_iff_forall_prop.mp (by decide)
  intro character member special
  obtain ⟨noWord, visible, noComma, noParenthesis⟩ := others character special
  rcases types.listed_or_parenthesis member with listed | parenthesis
  · have noList := not_isListCharacter noWord visible noComma
    exact absurd (noList.symm.trans listed) (by decide)
  · exact noParenthesis parenthesis

/-- The characters of its words are of ASCII. -/
theorem isAsciiWord_of_mem_spelled {word : Text} (member : word ∈ spelled text)
    {character : Char} (inside : character ∈ word) :
    isAsciiWord character = true := by
  have isWord : isWord character = true := by
    have separates := separates_of_mem_piecesAt member character inside
    simpa using separates
  have known := types.listed_or_parenthesis
    (mem_of_mem_spelled member inside)
  rcases known with listed | parenthesis
  · rw [isListCharacter, Bool.or_eq_true, Bool.or_eq_true, beq_iff_eq] at listed
    rcases listed with (ascii | blank) | rfl
    · exact ascii
    · rw [not_isBlank_of_isWord isWord] at blank
      cases blank
    · cases isWord
  · have noWord : ∀ mark ∈ ['(', ')'], Text.isWord mark = false :=
      List.all_iff_forall_prop.mp (by decide)
    exact absurd ((noWord character parenthesis).symm.trans isWord) (by decide)

/-- A list of types closes what it opens. -/
theorem isBalanced : IsBalanced (text.map Cell.plain) := by
  induction types with
  | nil => exact isBalanced_nil
  | @plain character rest listed behind ih =>
      have others : ∀ mark ∈ ['\'', '"', '(', ')'],
          isListCharacter mark = false :=
        List.all_iff_forall_prop.mp (by decide)
      have single : ∀ cell ∈ [Cell.plain character],
          shown cell ∉ ['\'', '"', '(', ')'] := by
        rw [List.forall_mem_singleton]
        intro mark
        exact absurd ((others character mark).symm.trans listed) (by decide)
      exact (isBalanced_of_forall single).append ih
  | @list inside rest within behind ihWithin ihBehind =>
      have parts : ('(' :: (inside ++ ')' :: rest)).map Cell.plain =
          .plain '(' :: (inside.map .plain ++ [.plain ')']) ++
            rest.map .plain := by
        simp
      rw [parts]
      exact (ihWithin.parenthesised rfl rfl).append ihBehind

theorem parenthesisBalance_eq :
    parenthesisBalance (text.map Cell.plain) = 0 := by
  induction types with
  | nil => rfl
  | @plain character rest listed behind ih =>
      rw [List.map_cons, parenthesisBalance_cons,
        parenthesisBalance_of_listed listed, ih]
      rfl
  | @list inside rest within behind ihWithin ihBehind =>
      have opening : parenthesisBalance [Cell.plain '('] = 1 := rfl
      have closing : parenthesisBalance [Cell.plain ')'] = -1 := rfl
      rw [List.map_cons, List.map_append, List.map_cons,
        parenthesisBalance_cons, parenthesisBalance_append,
        parenthesisBalance_cons (Cell.plain ')'), ihWithin, ihBehind, opening,
        closing]
      rfl

end IsTypeList

theorem IsIdentifier.isTypeList {word : Text}
    (identifier : IsIdentifier word) : IsTypeList word := by
  have listed : ∀ character ∈ word, isListCharacter character = true := by
    intro character member
    rw [isListCharacter, identifier.ascii character member, Bool.true_or,
      Bool.true_or]
  rw [← List.append_nil word]
  exact .plain_append listed .nil

/-! ## Return types -/

/-- A blank text. -/
def IsBlankText (text : Text) : Prop :=
  ∀ character ∈ text, isBlank character = true

instance (text : Text) : Decidable (IsBlankText text) :=
  List.decidableBAll _ text

/-- A return type: a word, perhaps with blanks and a list behind it. -/
structure WrittenReturn where
  word : Text
  list : Option (Text × Text) := none
  isIdentifier : IsIdentifier word
  isList : ∀ parts ∈ list, IsBlankText parts.1 ∧ IsTypeList parts.2

namespace WrittenReturn

/-- What stands behind the word of a return type. -/
def listText : Option (Text × Text) → Text
  | none => []
  | some (blanks, inside) => blanks ++ '(' :: (inside ++ [')'])

variable (returned : WrittenReturn)

def text : Text :=
  returned.word ++ listText returned.list

theorem isTypeList_listText : IsTypeList (listText returned.list) := by
  cases list : returned.list with
  | none => exact .nil
  | some parts =>
      obtain ⟨blank, types⟩ := returned.isList parts list
      have listed : ∀ character ∈ parts.1, isListCharacter character = true := by
        intro character member
        rw [isListCharacter, blank character member, Bool.or_true,
          Bool.true_or]
      exact .plain_append listed (.list types .nil)

/-- A return type is itself a list. -/
theorem isTypeList_text : IsTypeList returned.text := by
  refine .plain_append (fun character member => ?_)
    returned.isTypeList_listText
  rw [isListCharacter, returned.isIdentifier.ascii character member,
    Bool.true_or, Bool.true_or]

theorem startsWith_listText :
    startsWith isWord (listText returned.list) = false := by
  cases list : returned.list with
  | none => rfl
  | some parts =>
      obtain ⟨blank, -⟩ := returned.isList parts list
      obtain ⟨blanks, inside⟩ := parts
      cases blanks with
      | nil => rfl
      | cons character others =>
          have known : isBlank character = true :=
            blank character List.mem_cons_self
          exact Bool.eq_false_iff.mpr fun word => absurd known
            (ne_true_of_eq_false (not_isBlank_of_isWord word))

/-- No word goes on behind the word of a return type. -/
theorem startsWith_cells_listText {rest : List Cell}
    (ends : startsWith isWord rest = false) :
    startsWith isWord ((listText returned.list).map Cell.plain ++ rest) =
      false := by
  have apart := returned.startsWith_listText
  cases list : listText returned.list with
  | nil => exact ends
  | cons character others =>
      rw [list] at apart
      exact apart

/-- The word of a return type is a word of the type. -/
theorem word_mem_spelled : returned.word ∈ spelled returned.text := by
  have apart := returned.startsWith_listText
  rw [text]
  cases list : listText returned.list with
  | nil =>
      rw [List.append_nil, returned.isIdentifier.spelled_eq]
      exact List.mem_singleton_self _
  | cons character others =>
      have between : isWord character = false := by
        rw [list] at apart
        exact apart
      rw [spelled_append_cons _ between, returned.isIdentifier.spelled_eq]
      exact List.mem_cons_self

end WrittenReturn

/-! ## Clauses -/

/-- The clauses of a procedure. -/
inductive ClauseKind where
  | returns
  | language
  | comment
  | executes
  deriving DecidableEq

/-- The keywords of a clause. -/
def ClauseKind.keywords : ClauseKind → List Text
  | .returns => ["RETURNS"]
  | .language => ["LANGUAGE"]
  | .comment => ["COMMENT"]
  | .executes => ["EXECUTE", "AS"]

/-- No two clauses have a keyword in common. -/
theorem ClauseKind.not_mem_keywords {kind other : ClauseKind}
    (apart : other ≠ kind) {keyword : Text}
    (own : keyword ∈ kind.keywords) : keyword ∉ other.keywords := by
  have none : ∀ word ∈ kind.keywords, word ∉ other.keywords := by
    cases kind <;> cases other <;> first | exact absurd rfl apart | decide
  exact none keyword own

/-- The letter that a clause starts with. -/
def ClauseKind.initial : ClauseKind → Char
  | .returns => 'R'
  | .language => 'L'
  | .comment => 'C'
  | .executes => 'E'

/-- The keywords that no type and no language is written with. -/
def reservedWords : List Text :=
  ["AS", "RETURNS", "COMMENT", "EXECUTE"]

/-- What a procedure says in its clauses. -/
structure WrittenClauses where
  returned : WrittenReturn
  language : Text
  comment : Text
  mode : ExecuteAs
  isLanguage : IsIdentifier language
  unreserved : ∀ word ∈ language :: spelled returned.text,
    asciiUpper word ∉ reservedWords
  outside : asciiUpper returned.word ≠ "LANGUAGE"

namespace WrittenClauses

variable (written : WrittenClauses)

/-- A clause as it is written. -/
def clause : ClauseKind → Text
  | .returns => "RETURNS " ++ written.returned.text
  | .language => "LANGUAGE " ++ written.language
  | .comment => commentText written.comment
  | .executes => "EXECUTE AS " ++ written.mode.keyword

/-- A clause is written as a list is, unless it is the comment. -/
theorem isTypeList_clause {kind : ClauseKind} (code : kind ≠ .comment) :
    IsTypeList (written.clause kind) := by
  cases kind with
  | returns =>
      exact .plain_append (List.all_eq_true.mp (by decide))
        written.returned.isTypeList_text
  | language =>
      exact .plain_append (List.all_eq_true.mp (by decide))
        written.isLanguage.isTypeList
  | comment => exact absurd rfl code
  | executes =>
      refine .plain_append (List.all_eq_true.mp (by decide))
        (IsIdentifier.isTypeList ?_)
      cases written.mode <;> decide

theorem cells_clause {kind : ClauseKind} (code : kind ≠ .comment) :
    cells (written.clause kind) = (written.clause kind).map .plain :=
  cells_code (written.isTypeList_clause code).isStill

theorem isPart_clause (kind : ClauseKind) : IsPart (written.clause kind) := by
  by_cases comment : kind = .comment
  · rw [comment]
    exact isPart_commentText written.comment
  · exact isPart_code (written.isTypeList_clause comment).isStill

theorem head?_clause (kind : ClauseKind) (rest : Text) :
    (written.clause kind ++ rest).head? = some kind.initial := by
  cases kind <;> rfl

/-- A masked clause starts with the first letter of its keyword. -/
theorem exists_cells_clause (kind : ClauseKind) :
    ∃ others, cells (written.clause kind) = .plain kind.initial :: others := by
  by_cases comment : kind = .comment
  · subst comment
    exact ⟨_, cells_commentText written.comment⟩
  · rw [written.cells_clause comment]
    cases kind with
    | comment => exact absurd rfl comment
    | returns => exact ⟨_, rfl⟩
    | language => exact ⟨_, rfl⟩
    | executes => exact ⟨_, rfl⟩

theorem startsBare_clause (kind : ClauseKind) (rest : Text) :
    StartsBare (written.clause kind ++ rest) := by
  rw [StartsBare, written.head?_clause kind rest]
  cases kind <;> decide

/-! ### Words of clauses -/

/-- The words of a clause beside its keywords. -/
def freeWords : ClauseKind → List Text
  | .returns => spelled written.returned.text
  | .language => [written.language]
  | .comment => []
  | .executes => [written.mode.keyword]

/-- The words of a clause are its keywords and the free words behind them. -/
theorem spelled_clause {kind : ClauseKind} (code : kind ≠ .comment) :
    spelled (written.clause kind) = kind.keywords ++ written.freeWords kind := by
  cases kind with
  | returns =>
      exact spelled_keyword "RETURNS" (by decide) written.returned.text
  | language =>
      have parts : spelled (written.clause .language) =
          ("LANGUAGE" : Text) :: spelled written.language :=
        spelled_keyword "LANGUAGE" (by decide) written.language
      rw [parts, written.isLanguage.spelled_eq]
      rfl
  | comment => exact absurd rfl code
  | executes =>
      have behind : spelled ("AS " ++ written.mode.keyword) =
          ("AS" : Text) :: spelled written.mode.keyword :=
        spelled_keyword "AS" (by decide) written.mode.keyword
      have parts : spelled (written.clause .executes) =
          ("EXECUTE" : Text) :: spelled ("AS " ++ written.mode.keyword) :=
        spelled_keyword "EXECUTE" (by decide) ("AS " ++ written.mode.keyword)
      have capital : IsCapital written.mode.keyword := by
        cases written.mode <;> decide
      rw [parts, behind, spelled_word capital.isWord]
      rfl

theorem isAsciiWord_of_mem_freeWords {kind : ClauseKind} {word : Text}
    (member : word ∈ written.freeWords kind) :
    ∀ character ∈ word, isAsciiWord character = true := by
  cases kind with
  | returns =>
      exact fun character inside =>
        written.returned.isTypeList_text.isAsciiWord_of_mem_spelled member inside
  | language =>
      rw [List.mem_singleton.mp member]
      exact written.isLanguage.ascii
  | comment => cases member
  | executes =>
      rw [List.mem_singleton.mp member]
      cases written.mode <;> exact List.all_eq_true.mp (by decide)

/-- No clause is written with a reserved word, but for its keywords. -/
theorem asciiUpper_ne_of_mem_freeWords {kind : ClauseKind} {word : Text}
    (member : word ∈ written.freeWords kind) {keyword : Text}
    (reserved : keyword ∈ reservedWords) : asciiUpper word ≠ keyword := by
  rintro rfl
  cases kind with
  | returns =>
      exact written.unreserved word (List.mem_cons_of_mem _ member) reserved
  | language =>
      rw [List.mem_singleton.mp member] at reserved
      exact written.unreserved _ List.mem_cons_self reserved
  | comment => cases member
  | executes =>
      rw [List.mem_singleton.mp member] at reserved
      revert reserved
      cases written.mode <;> decide

section

variable {keyword : Text} (capital : IsCapital keyword) (nonempty : keyword ≠ [])

include capital nonempty

/-- The text of a comment holds no other keyword, since it is covered. -/
theorem lacks_commentText (content : Text) (other : keyword ≠ "COMMENT")
    (behind rest : List Cell) :
    Lacks keyword rest behind (cells (commentText content)) := by
  obtain ⟨letter, letters, rfl⟩ := List.exists_cons_of_ne_nil nonempty
  have spelling : spelled ("COMMENT = " : Text) =
      ("COMMENT" : Text) :: spelled "= " :=
    spelled_keyword "COMMENT" (by decide) "= "
  have signs : ∀ word ∈ spelled ("= " : Text), word = [] := by
    decide
  have others : ∀ word ∈ spelled ("COMMENT = " : Text),
      keyword? (letter :: letters) word ≠ some [] := by
    rw [spelling, List.forall_mem_cons]
    refine ⟨fun whole => other ?_, fun word member => ?_⟩
    · exact (asciiUpper_of_keyword? (List.all_eq_true.mp (by decide))
        whole).symm
    · rw [signs word member]
      nofun
  have quote : startsWith isWord (cells (stringLiteral content) ++ rest) =
      false := by
    rw [cells_stringLiteral]
    rfl
  have marks : ∀ character ∈ ['\'', '_', '\n'],
      character.toUpper = character ∧ character.toNat < 128 ∧
        character.isUpper = false :=
    List.all_iff_forall_prop.mp (by decide)
  have unspelled : ∀ character ∈ ['\'', '_', '\n'],
      IsUnspelled character := fun character member =>
    have known := marks character member
    isUnspelled_of_toUpper known.1 known.2.1 known.2.2
  have quiet : ∀ cell ∈ cells (stringLiteral content),
      isKeywordLetter letter (shown cell) = false := fun cell member =>
    unspelled _ (shown_of_mem_stringLiteral member) letter
      (capital letter List.mem_cons_self)
  rw [cells_commentText]
  exact (lacks_code capital nonempty others quote behind).append
    (lacks_of_quiet rfl quiet _)

/-- A clause lacks what is neither its keyword nor another word of it. -/
theorem lacks_clause {kind : ClauseKind} (other : keyword ∉ kind.keywords)
    (free : ∀ word ∈ written.freeWords kind, asciiUpper word ≠ keyword)
    {rest : List Cell} (ends : startsWith isWord rest = false)
    (behind : List Cell) :
    Lacks keyword rest behind (cells (written.clause kind)) := by
  by_cases comment : kind = .comment
  · subst comment
    exact lacks_commentText capital nonempty written.comment
      (fun same => other (List.mem_singleton.mpr same)) behind rest
  · have keywords : ∀ word ∈ kind.keywords, asciiUpper word = word ∧
        IsIdentifier word := by
      cases kind <;> decide
    have others : ∀ word ∈ spelled (written.clause kind),
        keyword? keyword word ≠ some [] := by
      intro word member whole
      rw [written.spelled_clause comment, List.mem_append] at member
      rcases member with own | more
      · have same := asciiUpper_of_keyword? (keywords word own).2.ascii whole
        rw [(keywords word own).1] at same
        exact other (same ▸ own)
      · exact free word more (asciiUpper_of_keyword?
          (written.isAsciiWord_of_mem_freeWords more) whole)
    rw [written.cells_clause comment]
    exact lacks_code capital nonempty others ends behind

end

theorem parenthesisBalance_clause (kind : ClauseKind) :
    parenthesisBalance (cells (written.clause kind)) = 0 := by
  by_cases comment : kind = .comment
  · have quiet : ∀ character ∈ ['\'', '_', '\n'], character ∉ ['(', ')'] :=
      List.all_iff_forall_prop.mp (by decide)
    have plain : ∀ cell ∈ cells (commentText written.comment),
        shown cell ∉ ['(', ')'] := by
      rw [cells_commentText, List.forall_mem_append]
      exact ⟨by decide, fun cell member =>
        quiet _ (shown_of_mem_stringLiteral member)⟩
    rw [comment]
    exact parenthesisBalance_eq_zero plain
  · rw [written.cells_clause comment]
    exact (written.isTypeList_clause comment).parenthesisBalance_eq

/-! ### Ends of clauses -/

/-- What ends in a word behind a blank, in a quote or in a parenthesis. -/
def EndsClause (list : List Cell) : Prop :=
  (∃ keywords word : Text, IsIdentifier word ∧
      asciiUpper word ∉ reservedWords ∧
        list = keywords.map .plain ++ .plain ' ' :: word.map .plain) ∨
    ∃ (code : List Cell) (mark : Char), mark ∈ ['\'', ')'] ∧
      list = code ++ [.plain mark]

/-- A clause ends in its last word. -/
theorem endsClause_of_word {kind : ClauseKind} (code : kind ≠ .comment)
    {keywords word : Text} (identifier : IsIdentifier word)
    (unreserved : asciiUpper word ∉ reservedWords)
    (parts : written.clause kind = keywords ++ ' ' :: word) :
    EndsClause (cells (written.clause kind)) := by
  refine .inl ⟨keywords, word, identifier, unreserved, ?_⟩
  rw [written.cells_clause code, parts, List.map_append, List.map_cons]

/-- A return type ends in its word, or in the parenthesis of its list. -/
theorem endsClause_returns : EndsClause (cells (written.clause .returns)) := by
  have code : ClauseKind.returns ≠ .comment := by decide
  cases list : written.returned.list with
  | none =>
      have whole : written.returned.text = written.returned.word := by
        rw [WrittenReturn.text, list]
        exact List.append_nil _
      have parts : written.clause .returns =
          ("RETURNS" : Text) ++ ' ' :: written.returned.text := rfl
      rw [whole] at parts
      exact written.endsClause_of_word code written.returned.isIdentifier
        (written.unreserved _
          (List.mem_cons_of_mem _ written.returned.word_mem_spelled)) parts
  | some parts =>
      obtain ⟨blanks, inside⟩ := parts
      have whole : written.returned.text =
          (written.returned.word ++ (blanks ++ '(' :: inside)) ++ [')'] := by
        rw [WrittenReturn.text, list, WrittenReturn.listText]
        simp only [List.append_assoc, List.cons_append]
      have parts : written.clause .returns =
          ("RETURNS " : Text) ++ written.returned.text := rfl
      have masked := written.cells_clause code
      rw [whole, ← List.append_assoc] at parts
      rw [parts, List.map_append, ← parts] at masked
      exact .inr ⟨_, ')', by decide, masked⟩

/-- Every clause ends in a word, in a quote or in a parenthesis. -/
theorem endsClause_clause (kind : ClauseKind) :
    EndsClause (cells (written.clause kind)) := by
  cases kind with
  | returns => exact written.endsClause_returns
  | language =>
      have parts : written.clause .language =
          ("LANGUAGE" : Text) ++ ' ' :: written.language := rfl
      exact written.endsClause_of_word (by decide) written.isLanguage
        (written.unreserved _ List.mem_cons_self) parts
  | comment =>
      have parts : cells (written.clause .comment) =
          (("COMMENT = " : Text).map Cell.plain ++ Cell.plain '\'' ::
            (doubledQuotes written.comment).flatMap (veil '_')) ++
              [.plain '\''] := by
        have clause : written.clause .comment = commentText written.comment :=
          rfl
        rw [clause, cells_commentText, cells_stringLiteral, List.append_assoc,
          List.cons_append]
      exact .inr ⟨_, _, by decide, parts⟩
  | executes =>
      have parts : written.clause .executes =
          ("EXECUTE AS" : Text) ++ ' ' :: written.mode.keyword := rfl
      refine written.endsClause_of_word (by decide) ?_ ?_ parts
      · cases written.mode <;> decide
      · cases written.mode <;> decide

end WrittenClauses

end Snowform
