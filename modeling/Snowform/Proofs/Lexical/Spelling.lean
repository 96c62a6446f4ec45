import Snowform.Proofs.Lexical.Fronts
import Snowform.Proofs.Text.Folding
import Snowform.Proofs.Text.Pieces
import Snowform.Proofs.Text.Wordwise

/-!
# Words that a text spells

A keyword is found in a text only if it is one of the words that the text
spells.  So a search for what a keyword introduces passes over a text that
spells other words, whatever stands in front of the text, unless a word goes on
behind it.
-/

namespace Snowform.Lexical

open Text

/-! ## Places where no word starts -/

section

variable {α : Type} [Shown α]

/-- No place of a list in front of a rest starts a word. -/
def Lacks (word : Text) (rest : List α) : List α → List α → Prop
  | _, [] => True
  | behind, element :: others =>
      wholeWord? word behind (element :: (others ++ rest)) = none ∧
        Lacks word rest (element :: behind) others

variable {word : Text} {rest : List α}

theorem Lacks.append {behind first second : List α}
    (left : Lacks word (second ++ rest) behind first)
    (right : Lacks word rest (first.reverse ++ behind) second) :
    Lacks word rest behind (first ++ second) := by
  induction first generalizing behind with
  | nil => exact right
  | cons element others ih =>
      rw [List.reverse_cons, List.append_assoc] at right
      have here := left.1
      rw [← List.append_assoc] at here
      exact ⟨here, ih left.2 right⟩

/-- What does not show the first letter lacks the word. -/
theorem lacks_of_quiet {letter : Char} (starts : word.head? = some letter)
    {list : List α}
    (quiet : ∀ element ∈ list, isKeywordLetter letter (shown element) = false)
    (behind : List α) : Lacks word rest behind list := by
  induction list generalizing behind with
  | nil => trivial
  | cons element others ih =>
      rw [List.forall_mem_cons] at quiet
      refine ⟨?_, ih quiet.2 _⟩
      cases word with
      | nil => cases starts
      | cons first letters =>
          cases starts
          have noKeyword : keyword? (letter :: letters)
              (element :: (others ++ rest)) = none :=
            if_neg (ne_true_of_eq_false quiet.1)
          rw [wholeWord?, noKeyword]
          exact ite_self none

/-- Inside of a word no other word starts. -/
theorem lacks_of_words {list : List α}
    (words : ∀ element ∈ list, isWord (shown element) = true)
    {behind : List α} (inside : startsWith isWord behind = true) :
    Lacks word rest behind list := by
  induction list generalizing behind with
  | nil => trivial
  | cons element others ih =>
      rw [List.forall_mem_cons] at words
      refine ⟨?_, ih words.2 words.1⟩
      have noBoundary : isBoundary behind (element :: (others ++ rest)) =
          false := by
        rw [isBoundary, inside]
        exact congrArg (true != ·) words.1
      rw [wholeWord?, noBoundary]
      rfl

/-! ## Searches for a keyword -/

/-- A recogniser of occurrences that start with a keyword. -/
def KeyedBy {β : Type} (word : Text) (recognise : Recogniser α β) : Prop :=
  ∀ behind ahead, wholeWord? word behind ahead = none →
    recognise behind ahead = none

/-- A search passes over what lacks the keyword. -/
theorem KeyedBy.findFirst_append {β : Type} {recognise : Recogniser α β}
    (keyed : KeyedBy word recognise) {behind passed : List α}
    (lacks : Lacks word rest behind passed) :
    findFirst recognise behind (passed ++ rest) =
      findFirst recognise (passed.reverse ++ behind) rest := by
  induction passed generalizing behind with
  | nil => rfl
  | cons element others ih =>
      rw [List.cons_append, findFirst, keyed _ _ lacks.1, List.reverse_cons,
        List.append_assoc]
      exact ih lacks.2

/-- What lacks the keyword holds no occurrence. -/
theorem KeyedBy.overlooks {β : Type} {recognise : Recogniser α β}
    (keyed : KeyedBy word recognise) (accept : List α × β → Bool)
    {behind passed : List α} (lacks : Lacks word rest behind passed) :
    Overlooks recognise accept rest behind passed := by
  induction passed generalizing behind with
  | nil => trivial
  | cons element others ih =>
      refine ⟨fun found after here => ?_, ih lacks.2⟩
      rw [keyed _ _ lacks.1] at here
      cases here

/-- A clause is keyed if no word goes on behind its keyword. -/
theorem clause?_eq_none {β : Type} {next : List α → Option β}
    (apart : ∀ rest, startsWith isWord rest = true → next rest = none)
    {behind ahead : List α} (absent : wholeWord? word behind ahead = none) :
    (if isBoundary behind ahead then keyword? word ahead >>= next
      else none >>= next) = none := by
  split
  next boundary =>
    rw [wholeWord?, if_pos boundary] at absent
    cases found : keyword? word ahead with
    | none => rfl
    | some rest =>
        rw [found] at absent
        dsimp only at absent
        split at absent
        next goesOn => exact apart rest goesOn
        next => cases absent
  next => rfl

end

/-! ## What lists show -/

section

variable {α : Type} [Shown α]

theorem startsWith_map_shown (test : Char → Bool) (list : List α) :
    startsWith test (list.map shown) = startsWith test list := by
  cases list <;> rfl

theorem keyword?_map_shown (word : Text) (list : List α) :
    keyword? word (list.map shown) = (keyword? word list).map (List.map shown) := by
  induction word generalizing list with
  | nil => rfl
  | cons letter letters ih =>
      cases list with
      | nil => rfl
      | cons element others =>
          have same : isKeywordLetter letter (shown (shown element)) =
              isKeywordLetter letter (shown element) := rfl
          rw [List.map_cons, keyword?, keyword?, same]
          split
          next => exact ih others
          next => rfl

theorem wholeWord?_map_shown (word : Text) (behind ahead : List α) :
    wholeWord? word (behind.map shown) (ahead.map shown) =
      (wholeWord? word behind ahead).map (List.map shown) := by
  rw [wholeWord?, wholeWord?, isBoundary, isBoundary, startsWith_map_shown,
    startsWith_map_shown, keyword?_map_shown]
  split
  next =>
    cases keyword? word ahead with
    | none => rfl
    | some rest =>
        dsimp only [Option.map_some]
        rw [startsWith_map_shown]
        split <;> rfl
  next => rfl

/-- Whether a list lacks a word is told by what is shown. -/
theorem Lacks.of_map_shown {word : Text} {rest behind list : List α}
    (lacks : Lacks word (rest.map shown) (behind.map shown) (list.map shown)) :
    Lacks word rest behind list := by
  induction list generalizing behind with
  | nil => trivial
  | cons element others ih =>
      refine ⟨?_, ih lacks.2⟩
      have here := lacks.1
      rw [← List.map_append, ← List.map_cons, wholeWord?_map_shown,
        Option.map_eq_none_iff] at here
      exact here

end

/-! ## Words of a text -/

/-- The words of a text: its parts between characters that no word has. -/
def spelled (text : Text) : List Text :=
  piecesAt (fun character => !isWord character) text

theorem spelled_word {word : Text}
    (isWordText : ∀ character ∈ word, isWord character = true) :
    spelled word = [word] :=
  piecesAt_of_forall fun character member => by
    rw [isWordText character member]
    rfl

/-- A character that no word has parts the words around it. -/
theorem spelled_append_cons (first : Text) {character : Char}
    (between : isWord character = false) (second : Text) :
    spelled (first ++ character :: second) =
      spelled first ++ spelled second :=
  piecesAt_append_cons first (by rw [between]; rfl) second

theorem IsCapital.isWord {word : Text} (capital : IsCapital word) :
    ∀ character ∈ word, Text.isWord character = true := by
  intro character member
  apply isWord_of_isAsciiWord
  rw [isAsciiWord_iff]
  exact .inl (.inl (isUpper_iff_toNat.mp (capital character member)))

theorem spelled_keyword (keyword : Text) (capital : IsCapital keyword)
    (rest : Text) :
    spelled (keyword ++ ' ' :: rest) = keyword :: spelled rest := by
  rw [spelled_append_cons keyword (by decide), spelled_word capital.isWord]
  rfl

theorem mem_of_mem_spelled {text word : Text} (member : word ∈ spelled text)
    {character : Char} (inside : character ∈ word) : character ∈ text :=
  (infix_of_mem_pieces _ _ member).subset inside

theorem isWord_of_isKeywordLetter {letter character : Char}
    (capital : letter.isUpper = true)
    (same : isKeywordLetter letter character = true) :
    isWord character = true := by
  simp only [isKeywordLetter, Bool.or_eq_true, Bool.and_eq_true,
    beq_iff_eq] at same
  rcases same with (upper | ⟨-, rfl⟩) | ⟨-, rfl⟩
  · have ascii : isAsciiWord character = true := by
      rw [isAsciiWord_iff]
      by_cases small : 'a'.val ≤ character.val ∧ character.val ≤ 'z'.val
      · exact .inl (.inr small)
      · have unchanged : character.toUpper = character := dif_neg small
        rw [← upper, unchanged, isUpper_iff_toNat] at capital
        exact .inl (.inl capital)
    exact isWord_of_isAsciiWord ascii
  · decide +kernel
  · decide +kernel

/-- A word of ASCII that is a keyword is the keyword in capitals. -/
theorem asciiUpper_of_keyword? {keyword word : Text}
    (ascii : ∀ character ∈ word, isAsciiWord character = true)
    (whole : keyword? keyword word = some []) : asciiUpper word = keyword := by
  induction keyword generalizing word with
  | nil =>
      cases whole
      rfl
  | cons letter letters ih =>
      cases word with
      | nil => cases whole
      | cons character others =>
          rw [List.forall_mem_cons] at ascii
          rw [keyword?] at whole
          split at whole
          next same =>
            have upper : character.toUpper = letter := by
              simp only [isKeywordLetter, Bool.or_eq_true, Bool.and_eq_true,
                beq_iff_eq] at same
              have code := (toNat_of_isAsciiWord ascii.1).2
              rcases same with (upper | ⟨-, rfl⟩) | ⟨-, rfl⟩
              · exact upper
              · exact absurd code (by decide)
              · exact absurd code (by decide)
            rw [asciiUpper, List.map_cons, upper]
            exact congrArg (letter :: ·) (ih ascii.2 whole)
          next => cases whole

section

variable {keyword : Text} (capital : IsCapital keyword)

include capital

/-- A keyword does not reach behind a word. -/
theorem keyword?_word {word rest after : Text}
    (ends : startsWith isWord rest = false)
    (found : keyword? keyword (word ++ rest) = some after) :
    ∃ others, keyword? keyword word = some others ∧
      after = others ++ rest := by
  induction keyword generalizing word with
  | nil =>
      cases found
      exact ⟨word, rfl, rfl⟩
  | cons letter letters ih =>
      rw [IsCapital, List.forall_mem_cons] at capital
      cases word with
      | nil =>
          cases rest with
          | nil => cases found
          | cons character rest =>
              rw [List.nil_append, keyword?] at found
              split at found
              next same =>
                have word := isWord_of_isKeywordLetter capital.1 same
                exact absurd (ends.symm.trans word) (by decide)
              next => cases found
      | cons character others =>
          rw [List.cons_append, keyword?] at found
          split at found
          next same =>
            rw [keyword?, if_pos same]
            exact ih capital.2 found
          next => cases found

/-- Another word is not taken for a keyword. -/
theorem wholeWord?_word {word : Text} (isWordText : IsWordText word)
    (other : keyword? keyword word ≠ some []) {rest : Text}
    (ends : startsWith isWord rest = false) (behind : Text) :
    wholeWord? keyword behind (word ++ rest) = none := by
  rw [wholeWord?]
  split
  next =>
    split
    next after found =>
      obtain ⟨others, within, rfl⟩ := keyword?_word capital ends found
      have isOthers : IsWordText others := by
        constructor
        · rintro rfl
          exact other within
        · intro character member
          have suffix := (leaves_of_keyword? capital.isLoud within).suffix
          exact isWordText.2 character (suffix.subset member)
      rw [if_pos (startsWith_word isOthers rest)]
    next => rfl
  next => rfl

/-- A keyword is spelled with letters. -/
theorem exists_letters_of_keyword? {α : Type} [Shown α] {list rest : List α}
    (found : keyword? keyword list = some rest) :
    ∃ letters, list = letters ++ rest ∧
      ∀ element ∈ letters, isWord (shown element) = true := by
  induction keyword generalizing list with
  | nil =>
      cases found
      exact ⟨[], rfl, List.forall_mem_nil _⟩
  | cons letter others ih =>
      rw [IsCapital, List.forall_mem_cons] at capital
      cases list with
      | nil => cases found
      | cons element list =>
          rw [keyword?] at found
          split at found
          next same =>
            obtain ⟨letters, rfl, words⟩ := ih capital.2 found
            exact ⟨element :: letters, rfl, List.forall_mem_cons.mpr
              ⟨isWord_of_isKeywordLetter capital.1 same, words⟩⟩
          next => cases found

/-- A word lacks every keyword that it is not. -/
theorem lacks_of_isWordText {word : Text} (isWordText : IsWordText word)
    (other : keyword? keyword word ≠ some []) {rest : Text}
    (ends : startsWith isWord rest = false) (behind : Text) :
    Lacks keyword rest behind word := by
  have none := wholeWord?_word capital isWordText other ends behind
  obtain ⟨first, others, rfl⟩ := List.exists_cons_of_ne_nil isWordText.1
  have words := List.forall_mem_cons.mp isWordText.2
  exact ⟨none, lacks_of_words words.2 words.1⟩

/-- A text lacks a keyword that it does not spell. -/
theorem lacks_of_not_spelled (nonempty : keyword ≠ []) {text : Text}
    (others : ∀ word ∈ spelled text, keyword? keyword word ≠ some [])
    {rest : Text} (ends : startsWith isWord rest = false) (behind : Text) :
    Lacks keyword rest behind text := by
  obtain ⟨letter, letters, rfl⟩ := List.exists_cons_of_ne_nil nonempty
  induction text using wordInduction generalizing behind with
  | nil => trivial
  | between character text between ih =>
      have parts := spelled_append_cons [] between text
      rw [List.nil_append] at parts
      rw [parts, List.forall_mem_append] at others
      have quiet : ∀ element ∈ [character],
          isKeywordLetter letter (shown element) = false := by
        rw [List.forall_mem_singleton, Bool.eq_false_iff]
        intro same
        have word := isWord_of_isKeywordLetter
          (capital letter List.mem_cons_self) same
        exact absurd (between.symm.trans word) (by decide)
      exact (lacks_of_quiet rfl quiet behind).append (ih _ others.2)
  | word word text isWordText apart ih =>
      have alone := spelled_word isWordText.2
      cases text with
      | nil =>
          rw [List.append_nil, alone, List.forall_mem_singleton] at others
          exact (lacks_of_isWordText capital isWordText others ends
            behind).append trivial
      | cons character text =>
          have between : isWord character = false := apart
          have parts := spelled_append_cons [] between text
          rw [List.nil_append] at parts
          rw [spelled_append_cons word between, alone,
            List.singleton_append, List.forall_mem_cons] at others
          have ends : startsWith isWord (character :: text ++ rest) =
              false := apart
          refine (lacks_of_isWordText capital isWordText others.1 ends
            behind).append (ih _ ?_)
          rw [parts, List.forall_mem_append]
          exact ⟨List.forall_mem_singleton.mpr nofun, others.2⟩

/-- Code lacks a keyword that it does not spell. -/
theorem lacks_code (nonempty : keyword ≠ []) {code : Text}
    (others : ∀ word ∈ spelled code, keyword? keyword word ≠ some [])
    {rest : List Cell} (ends : startsWith isWord rest = false)
    (behind : List Cell) :
    Lacks keyword rest behind (code.map Cell.plain) := by
  have same : (code.map Cell.plain).map shown = code := by
    rw [List.map_map]
    exact List.map_id code
  apply Lacks.of_map_shown
  rw [same]
  rw [← startsWith_map_shown] at ends
  exact lacks_of_not_spelled capital nonempty others ends _

end

end Snowform.Lexical
