import Mathlib.Data.Bool.AllAny
import Snowform.Proofs.Lexical.Clearing
import Snowform.Proofs.Lexical.Gaps
import Snowform.Proofs.Lexical.Parting

/-!
# Heads of recognised statements

What a statement creates is told from its text without comments, and its head
is read from its masked text.  Both show the same code; a comment is one
blank, or nothing, in the one and a blank for every byte in the other.  So
the head that is recognised is found again, with the same flags.
-/

namespace Snowform

open Text Lexical

/-! ## Two forms of a statement -/

/--
A text without comments beside the masked text: they show the same code.  A
block comment leaves a blank and a line comment the line feed behind it, and
from the first literal on nothing more is said, since no head goes on there.
-/
inductive Beside : Text → List Cell → Prop
  | nil : Beside [] []
  | code (character : Char) {left : Text} {list : List Cell}
      (behind : Beside left list) :
      Beside (character :: left) (.plain character :: list)
  | block {hidden list : List Cell} {left : Text} (nonempty : hidden ≠ [])
      (blank : ∀ cell ∈ hidden, isBlank (shown cell) = true)
      (behind : Beside left list) : Beside (' ' :: left) (hidden ++ list)
  | line {hidden list : List Cell} {left : Text} (nonempty : hidden ≠ [])
      (blank : ∀ cell ∈ hidden, isBlank (shown cell) = true)
      (feed : ∀ first ∈ left.head?, first = '\n')
      (behind : Beside left list) : Beside left (hidden ++ list)
  | literal {mark : Char} (opens : mark ∈ ['\'', '"', '$']) (left : Text)
      (list : List Cell) : Beside (mark :: left) (.plain mark :: list)

namespace Region

theorem cells_ne_nil_of_isComment {region : Region}
    (comment : region.kind.isComment = true) (nonempty : region.text ≠ []) :
    region.cells ≠ [] := by
  intro empty
  have shown := masked_comment comment
  rw [masked, empty] at shown
  exact covered_ne_nil nonempty shown.symm

end Region

namespace Lexical

/-- A literal starts with a mark that is shown. -/
theorem exists_mark_of_literal {mode : Mode} (opens : mode.Opens)
    (literal : mode.kind.isLiteral = true) (text : Text) :
    ∃ mark ∈ ['\'', '"', '$'], ∃ behind hidden,
      mode.opening ++ mode.remainder text = mark :: behind ∧
      (⟨mode.kind, mode.opening ++ mode.remainder text⟩ : Region).cells =
        .plain mark :: hidden := by
  obtain ⟨hidden, closing, -, -, cells⟩ :=
    exists_cells_literal opens literal text
  rw [cells]
  cases mode with
  | singleQuote => exact ⟨'\'', by decide, _, _, rfl, rfl⟩
  | doubleQuote => exact ⟨'"', by decide, _, _, rfl, rfl⟩
  | dollarQuote tag => exact ⟨'$', by decide, _, _, rfl, rfl⟩
  | _ => cases literal

/-- The line feed behind a line comment is all that is left of both. -/
theorem head?_withoutComment_of_feed {afterName : Bool} {text : Text}
    (feed : ∀ first ∈ text.head?, first = '\n') :
    ∀ first ∈ ((lexemesFrom 0 afterName text).flatMap
      Region.withoutComment).head?, first = '\n' := by
  cases text with
  | nil => exact nofun
  | cons character rest =>
      rw [feed character rfl, lexemesFrom_neutral (by decide)]
      rintro first ⟨⟩
      rfl

theorem beside_lexemesFrom (afterName : Bool) (text : Text) :
    Beside ((lexemesFrom 0 afterName text).flatMap Region.withoutComment)
      ((lexemesFrom 0 afterName text).flatMap Region.cells) := by
  induction afterName, text using lexemeInduction with
  | nil afterName => exact .nil
  | special afterName region rest found ih =>
      have filled := (special?_spec found).2.1
      obtain ⟨mode, text, -, opens, parts, rfl⟩ :=
        special?_append_eq_some found
      rw [lexemesFrom_special found, List.flatMap_cons, List.flatMap_cons]
      rcases RegionKind.isLiteral_or_isComment opens.kind_ne_code with
        literal | comment
      · obtain ⟨mark, isMark, behind, hidden, written, masked⟩ :=
          exists_mark_of_literal opens literal text
        rw [Region.withoutComment_of_isLiteral literal, masked, written]
        exact .literal isMark _ _
      · have nonempty := Region.cells_ne_nil_of_isComment comment filled
        have blank : ∀ cell ∈ Region.cells
            ⟨mode.kind, mode.opening ++ mode.remainder text⟩,
              isBlank (shown cell) = true :=
          fun _ => Region.IsTrivial.isBlank_shown (.inl comment)
        cases mode with
        | lineComment =>
            exact .line nonempty blank (head?_withoutComment_of_feed
              (Mode.head?_behind_lineComment parts)) ih
        | blockComment => exact .block nonempty blank ih
        | _ => cases comment
  | code afterName character rest absent ih =>
      rw [lexemesFrom_code absent, List.flatMap_cons, List.flatMap_cons]
      exact .code character ih

theorem beside_stripComments (statement : Text) :
    Beside (stripComments statement) (cells statement) :=
  beside_lexemesFrom false statement

end Lexical

/-! ## Reading both forms -/

/-- A letter is met as one capital only. -/
theorem Lexical.capital_unique {first second character : Char}
    (firstCapital : first.isUpper = true) (secondCapital : second.isUpper = true)
    (one : isKeywordLetter first character = true)
    (other : isKeywordLetter second character = true) : first = second := by
  simp only [isKeywordLetter, Bool.or_eq_true, Bool.and_eq_true,
    beq_iff_eq] at one other
  -- The long s and the Kelvin sign are not changed by capitals.
  rcases one with (rfl | ⟨rfl, rfl⟩) | ⟨rfl, rfl⟩
  · rcases other with (rfl | ⟨rfl, rfl⟩) | ⟨rfl, rfl⟩
    · rfl
    · exact absurd firstCapital (by decide)
    · exact absurd firstCapital (by decide)
  · rcases other with (rfl | ⟨rfl, -⟩) | ⟨rfl, different⟩
    · exact absurd secondCapital (by decide)
    · rfl
    · exact absurd different (by decide)
  · rcases other with (rfl | ⟨rfl, different⟩) | ⟨rfl, -⟩
    · exact absurd secondCapital (by decide)
    · exact absurd different (by decide)
    · rfl

/-- Keywords that a list starts with start with the same letter. -/
theorem Lexical.head?_eq_of_keyword? {α : Type} [Shown α] {first second : Text}
    (firstCapital : IsCapital first) (secondCapital : IsCapital second)
    (nonempty : first ≠ [] ∧ second ≠ []) {list rest after : List α}
    (one : keyword? first list = some rest)
    (other : keyword? second list = some after) :
    first.head? = second.head? := by
  obtain ⟨letter, letters, rfl⟩ := List.exists_cons_of_ne_nil nonempty.1
  obtain ⟨capital, capitals, rfl⟩ := List.exists_cons_of_ne_nil nonempty.2
  cases list with
  | nil => cases one
  | cons element behind =>
      rw [keyword?] at one other
      split at one
      next here =>
        split at other
        next there =>
          exact congrArg some (capital_unique
            (firstCapital letter List.mem_cons_self)
            (secondCapital capital List.mem_cons_self) here there)
        next => cases other
      next => cases one

namespace Beside

variable {left : Text} {list : List Cell}

/-- A keyword is met in both texts or in none. -/
theorem keyword? {word : Text} (capital : IsCapital word)
    (beside : Beside left list) :
    Option.Rel Beside (Lexical.keyword? word left)
      (Lexical.keyword? word list) := by
  induction word generalizing left list with
  | nil => exact .some beside
  | cons letter letters ih =>
      rw [IsCapital, List.forall_mem_cons] at capital
      obtain ⟨upper, others⟩ := capital
      have noBlank : ∀ {hidden list : List Cell}, hidden ≠ [] →
          (∀ cell ∈ hidden, isBlank (shown cell) = true) →
          Lexical.keyword? (letter :: letters) (hidden ++ list) = none := by
        intro hidden list nonempty blank
        obtain ⟨cell, further, rfl⟩ := List.exists_cons_of_ne_nil nonempty
        rw [List.cons_append, Lexical.keyword?,
          isKeywordLetter_of_isBlank upper (blank cell List.mem_cons_self)]
        rfl
      cases beside with
      | nil => exact .none
      | code character behind =>
          rw [Lexical.keyword?, Lexical.keyword?]
          change Option.Rel Beside
            (if isKeywordLetter letter character then _ else _)
            (if isKeywordLetter letter character then _ else _)
          split
          · exact ih others behind
          · exact .none
      | block nonempty blank behind =>
          rw [noBlank nonempty blank, Lexical.keyword?,
            isKeywordLetter_of_isBlank upper (by decide)]
          exact .none
      | @line hidden list left nonempty blank feed behind =>
          rw [noBlank nonempty blank]
          cases left with
          | nil => exact .none
          | cons first further =>
              rw [feed first rfl, Lexical.keyword?,
                isKeywordLetter_of_isBlank upper (by decide)]
              exact .none
      | @literal mark opens left list =>
          have differs : isKeywordLetter letter mark = false := by
            rw [Bool.eq_false_iff]
            intro same
            simp only [List.mem_cons, List.not_mem_nil, or_false] at opens
            rcases opens with rfl | rfl | rfl <;>
              rw [eq_of_isKeywordLetter (by decide) (by decide) same] at upper <;>
              cases upper
          rw [Lexical.keyword?, Lexical.keyword?]
          change Option.Rel Beside (if isKeywordLetter letter mark then _ else _)
            (if isKeywordLetter letter mark then _ else _)
          rw [differs]
          exact .none

/-- A keyword is met in the masked text where it is met in the other. -/
theorem exists_keyword? {word : Text} (capital : IsCapital word)
    (beside : Beside left list) {rest : Text}
    (found : Lexical.keyword? word left = some rest) :
    ∃ behind, Lexical.keyword? word list = some behind ∧
      Beside rest behind := by
  have both := beside.keyword? capital
  rw [found] at both
  cases masked : Lexical.keyword? word list with
  | none =>
      rw [masked] at both
      cases both
  | some behind =>
      rw [masked] at both
      cases both with
      | some along => exact ⟨behind, rfl, along⟩

theorem keyword?_eq_none {word : Text} (capital : IsCapital word)
    (beside : Beside left list) (absent : Lexical.keyword? word left = none) :
    Lexical.keyword? word list = none := by
  have both := beside.keyword? capital
  rw [absent] at both
  cases masked : Lexical.keyword? word list with
  | none => rfl
  | some behind =>
      rw [masked] at both
      cases both

theorem skipBlanks (beside : Beside left list) :
    Beside (Lexical.skipBlanks left) (Lexical.skipBlanks list) := by
  have skipped : ∀ {hidden list : List Cell},
      (∀ cell ∈ hidden, isBlank (shown cell) = true) →
      Lexical.skipBlanks (hidden ++ list) = Lexical.skipBlanks list :=
    fun blank => List.dropWhile_append_of_pos blank
  induction beside with
  | nil => exact .nil
  | @code character left list behind ih =>
      cases blank : isBlank character with
      | true =>
          rw [skipBlanks_cons_blank blank, skipBlanks_cons_blank blank]
          exact ih
      | false =>
          rw [skipBlanks_cons_visible blank, skipBlanks_cons_visible blank]
          exact .code character behind
  | block nonempty blank behind ih =>
      rw [skipped blank]
      exact ih
  | line nonempty blank feed behind ih =>
      rw [skipped blank]
      exact ih
  | @literal mark opens left list =>
      have marks : ∀ mark ∈ ['\'', '"', '$'], isBlank mark = false :=
        List.all_iff_forall_prop.mp (by decide)
      have visible := marks mark opens
      rw [skipBlanks_cons_visible visible, skipBlanks_cons_visible visible]
      exact .literal opens left list

theorem startsWith_isBlank (beside : Beside left list)
    (blank : startsWith isBlank left = true) :
    startsWith isBlank list = true := by
  have shows : ∀ {hidden list : List Cell}, hidden ≠ [] →
      (∀ cell ∈ hidden, isBlank (shown cell) = true) →
      startsWith isBlank (hidden ++ list) = true := by
    intro hidden list nonempty blank
    obtain ⟨cell, further, rfl⟩ := List.exists_cons_of_ne_nil nonempty
    exact blank cell List.mem_cons_self
  cases beside with
  | nil => cases blank
  | code character behind => exact blank
  | block nonempty hides behind => exact shows nonempty hides
  | line nonempty hides feed behind => exact shows nonempty hides
  | literal opens left list => exact blank

theorem blanks? (beside : Beside left list) {rest : Text}
    (found : Lexical.blanks? left = some rest) :
    ∃ behind, Lexical.blanks? list = some behind ∧ Beside rest behind := by
  rw [Lexical.blanks?] at found ⊢
  split at found
  next blank =>
    cases found
    rw [if_pos (beside.startsWith_isBlank blank)]
    exact ⟨_, rfl, beside.skipBlanks⟩
  next => cases found

/-- A phrase of the text without comments is one of the masked text. -/
theorem phrase? {phrase : List Text}
    (capital : ∀ word ∈ phrase, IsCapital word) (beside : Beside left list)
    {rest : Text} (found : Lexical.phrase? phrase left = some rest) :
    ∃ behind, Lexical.phrase? phrase list = some behind ∧
      Beside rest behind := by
  induction phrase generalizing left list with
  | nil =>
      cases found
      exact ⟨list, rfl, beside⟩
  | cons word words ih =>
      rw [List.forall_mem_cons] at capital
      rw [Lexical.phrase?] at found ⊢
      obtain ⟨start, first, others⟩ := Option.bind_eq_some_iff.mp found
      obtain ⟨after, met, blank⟩ := Option.bind_eq_some_iff.mp first
      obtain ⟨seen, masked, along⟩ := beside.exists_keyword? capital.1 met
      obtain ⟨next, blanks, further⟩ := along.blanks? blank
      obtain ⟨behind, more, ends⟩ := ih capital.2 further others
      refine ⟨behind, ?_, ends⟩
      simp only [masked, Option.bind_eq_bind, Option.bind_some, blanks, more]

/--
An optional phrase is found in both texts or in none, if its first word does
not stand where it is not found.
-/
theorem optionalPhrase {word : Text} {words : List Text}
    (capital : ∀ each ∈ word :: words, IsCapital each)
    (beside : Beside left list)
    (sure : Lexical.phrase? (word :: words) left = none →
      Lexical.keyword? word left = none) :
    (Lexical.optionalPhrase (word :: words) list).1 =
        (Lexical.optionalPhrase (word :: words) left).1 ∧
      Beside (Lexical.optionalPhrase (word :: words) left).2
        (Lexical.optionalPhrase (word :: words) list).2 := by
  rw [Lexical.optionalPhrase, Lexical.optionalPhrase]
  cases found : Lexical.phrase? (word :: words) left with
  | some rest =>
      obtain ⟨behind, masked, ends⟩ := beside.phrase? capital found
      rw [masked]
      exact ⟨rfl, ends⟩
  | none =>
      have masked := beside.keyword?_eq_none (capital word List.mem_cons_self)
        (sure found)
      rw [Lexical.phrase?, masked]
      exact ⟨rfl, beside⟩

end Beside

/-! ## Heads -/

/-- Read `SECURE`, which a view may say. -/
def optionalSecure {α : Type} [Shown α] (object : ObjectKind)
    (list : List α) : Bool × List α :=
  if object = .view then optionalPhrase ["SECURE"] list else (false, list)

/-- What is read in front of the kind of an object, in its parts. -/
theorem beforeKind?_eq {α : Type} [Shown α] (object : ObjectKind)
    (list : List α) :
    beforeKind? object list =
      (phrase? ["CREATE"] (skipBlanks list)).map fun start =>
        let replaced := optionalPhrase ["OR", "REPLACE"] start
        let secured := optionalSecure object replaced.2
        (⟨replaced.1, secured.1⟩, secured.2) := by
  rw [beforeKind?]
  cases phrase? ["CREATE"] (skipBlanks list) with
  | none => rfl
  | some start => cases object <;> rfl

/-- The words that may follow `CREATE OR REPLACE` for a kind of object. -/
def ObjectKind.openings : ObjectKind → List Text
  | .table => ["TABLE"]
  | .view => ["SECURE", "VIEW"]
  | .procedure => ["PROCEDURE"]

theorem ObjectKind.isCapital_of_mem_openings {object : ObjectKind} :
    ∀ word ∈ object.openings, IsCapital word ∧ word ≠ [] ∧
      word.head? ≠ some 'O' := by
  cases object <;> decide

/-- The first letter behind `CREATE OR REPLACE` tells the kind of object. -/
theorem ObjectKind.eq_of_mem_openings {first second : ObjectKind} :
    ∀ word ∈ first.openings, ∀ other ∈ second.openings,
      word.head? = other.head? → first = second := by
  cases first <;> cases second <;> decide

section Creating

variable {α : Type} [Shown α]

/-- An optional phrase is there, or the list is left as it is. -/
theorem optionalPhrase_cases (phrase : List Text) (list : List α) :
    (∃ rest, phrase? phrase list = some rest ∧
      optionalPhrase phrase list = (true, rest)) ∨
    phrase? phrase list = none ∧ optionalPhrase phrase list = (false, list) := by
  rw [optionalPhrase]
  cases phrase? phrase list with
  | none => exact .inr ⟨rfl, rfl⟩
  | some rest => exact .inl ⟨rest, rfl, rfl⟩

theorem exists_keyword?_of_phrase? {word : Text} {words : List Text}
    {list rest : List α} (found : phrase? (word :: words) list = some rest) :
    ∃ after, keyword? word list = some after := by
  rw [phrase?] at found
  obtain ⟨start, first, -⟩ := Option.bind_eq_some_iff.mp found
  obtain ⟨after, met, -⟩ := Option.bind_eq_some_iff.mp first
  exact ⟨after, met⟩

/-- A head that is recognised opens with a word for the kind of object. -/
theorem exists_opening_of_creates {object : ObjectKind} {list : List α}
    (created : creates object list = true) :
    ∃ start, phrase? ["CREATE"] (skipBlanks list) = some start ∧
      ∃ word ∈ object.openings, ∃ rest,
        keyword? word (optionalPhrase ["OR", "REPLACE"] start).2 =
          some rest := by
  rw [creates, beforeKind?_eq] at created
  cases begins : phrase? ["CREATE"] (skipBlanks list) with
  | none =>
      rw [begins] at created
      cases created
  | some start =>
      rw [begins] at created
      refine ⟨start, rfl, ?_⟩
      have met : ∀ {word : Text} {next : List α},
          (keyword? word next).any (startsWith isBlank) = true →
          ∃ rest, keyword? word next = some rest := by
        intro word next known
        obtain ⟨rest, found, -⟩ := (Option.any_eq_true _ _).mp known
        exact ⟨rest, found⟩
      cases object with
      | table => exact ⟨"TABLE", by decide, met created⟩
      | procedure => exact ⟨"PROCEDURE", by decide, met created⟩
      | view =>
          rcases optionalPhrase_cases ["SECURE"]
            (optionalPhrase ["OR", "REPLACE"] start).2 with
            ⟨rest, secured, -⟩ | ⟨-, same⟩
          · exact ⟨"SECURE", by decide, exists_keyword?_of_phrase? secured⟩
          · have known : (keyword? "VIEW" (optionalPhrase ["SECURE"]
                (optionalPhrase ["OR", "REPLACE"] start).2).2).any
                (startsWith isBlank) = true := created
            rw [same] at known
            exact ⟨"VIEW", by decide, met known⟩

/-- A statement creates an object of one kind at most. -/
theorem creates_unique {first second : ObjectKind} {list : List α}
    (one : creates first list = true) (other : creates second list = true) :
    first = second := by
  obtain ⟨start, begins, word, known, rest, met⟩ := exists_opening_of_creates one
  obtain ⟨again, same, also, listed, after, found⟩ :=
    exists_opening_of_creates other
  rw [begins] at same
  cases same
  obtain ⟨capital, nonempty, -⟩ := ObjectKind.isCapital_of_mem_openings word known
  obtain ⟨capitalToo, nonemptyToo, -⟩ :=
    ObjectKind.isCapital_of_mem_openings also listed
  exact ObjectKind.eq_of_mem_openings word known also listed
    (head?_eq_of_keyword? capital capitalToo ⟨nonempty, nonemptyToo⟩ met found)

end Creating

/-! ## The head of the masked text -/

namespace Beside

variable {left : Text} {list : List Cell}

/-- What says that a view is secure is met in both texts or in none. -/
theorem optionalSecure {object : ObjectKind} (beside : Beside left list)
    {rest : Text}
    (named : Lexical.keyword? object.keyword
      (Snowform.optionalSecure object left).2 = some rest) :
    (Snowform.optionalSecure object list).1 =
        (Snowform.optionalSecure object left).1 ∧
      Beside (Snowform.optionalSecure object left).2
        (Snowform.optionalSecure object list).2 := by
  rw [Snowform.optionalSecure] at named
  rw [Snowform.optionalSecure, Snowform.optionalSecure]
  by_cases view : object = .view
  · subst view
    rw [if_pos rfl] at named ⊢
    rw [if_pos rfl]
    apply beside.optionalPhrase (by decide)
    intro absent
    rcases optionalPhrase_cases ["SECURE"] left with ⟨_, found, -⟩ | ⟨-, same⟩
    · rw [found] at absent
      cases absent
    · rw [same] at named
      rw [Option.eq_none_iff_forall_ne_some]
      intro after found
      have letters := head?_eq_of_keyword? (by decide) (by decide)
        (by decide) named found
      exact absurd letters (by decide)
  · rw [if_neg view, if_neg view]
    exact ⟨rfl, beside⟩

/-- What says that an object is replaced is met in both texts or in none. -/
theorem optionalReplace {object : ObjectKind} (beside : Beside left list)
    {word : Text} (known : word ∈ object.openings) {rest : Text}
    (met : Lexical.keyword? word
      (Lexical.optionalPhrase ["OR", "REPLACE"] left).2 = some rest) :
    (Lexical.optionalPhrase ["OR", "REPLACE"] list).1 =
        (Lexical.optionalPhrase ["OR", "REPLACE"] left).1 ∧
      Beside (Lexical.optionalPhrase ["OR", "REPLACE"] left).2
        (Lexical.optionalPhrase ["OR", "REPLACE"] list).2 := by
  apply beside.optionalPhrase (by decide)
  intro absent
  rcases optionalPhrase_cases ["OR", "REPLACE"] left with
    ⟨_, found, -⟩ | ⟨-, same⟩
  · rw [found] at absent
    cases absent
  · rw [same] at met
    rw [Option.eq_none_iff_forall_ne_some]
    intro after found
    obtain ⟨capital, nonempty, apart⟩ :=
      ObjectKind.isCapital_of_mem_openings word known
    exact apart (head?_eq_of_keyword? capital (by decide)
      ⟨nonempty, by decide⟩ met found)

/-- A head that is recognised is read from the masked text, flags and all. -/
theorem readHead? {object : ObjectKind} (beside : Beside left list)
    (created : creates object left = true) :
    ∃ flags rest start, beforeKind? object left = some (flags, rest) ∧
      Snowform.readHead? object list = some (flags, start) := by
  obtain ⟨start, begins, word, known, rest, met⟩ :=
    exists_opening_of_creates created
  obtain ⟨seen, masked, along⟩ := beside.skipBlanks.phrase? (by decide) begins
  obtain ⟨flag, next⟩ := along.optionalReplace known met
  have before := beforeKind?_eq object left
  rw [begins, Option.map_some] at before
  rw [creates, before] at created
  obtain ⟨after, named, blank⟩ := (Option.any_eq_true _ _).mp created
  obtain ⟨secure, behind⟩ := next.optionalSecure named
  obtain ⟨further, found, ends⟩ := behind.exists_keyword?
    (by cases object <;> decide) named
  have blanks : Lexical.blanks? further = some (Lexical.skipBlanks further) :=
    if_pos (ends.startsWith_isBlank blank)
  refine ⟨_, _, (Lexical.optionalPhrase ["IF", "NOT", "EXISTS"]
    (Lexical.skipBlanks further)).2, before, ?_⟩
  rw [Snowform.readHead?, beforeKind?_eq, masked]
  simp only [Option.map_some, Option.bind_eq_bind, Option.bind_some,
    flag, secure, Lexical.phrase?, found, blanks]
  rfl

end Beside

end Snowform
