import Snowform.Text.Blank
import Snowform.Proofs.Text.Pieces

/-!
# Words

Words that are joined by single blanks are the words of the joined text.
Joining words of a text does not make it longer, and the end of a text has
no more words than the text.
-/

namespace Snowform.Text

/-- A text that is one word. -/
def IsWord (word : Text) : Prop :=
  word ≠ [] ∧ ∀ character ∈ word, isBlank character = false

/-- The words of a text are words. -/
theorem isWord_of_mem_words {text word : Text} (member : word ∈ words text) :
    IsWord word := by
  rw [words, List.mem_filter] at member
  obtain ⟨piece, filled⟩ := member
  refine ⟨?_, separates_of_mem_piecesAt piece⟩
  rintro rfl
  cases filled

/-! ## Joining words -/

/-- Words with blanks between them are found again. -/
theorem words_intercalate {list : List Text} (all : ∀ word ∈ list, IsWord word) :
    words ([' '].intercalate list) = list := by
  have single : ∀ {word : Text}, IsWord word → words word = [word] := by
    intro word isWord
    rw [words, piecesAt_of_forall isWord.2]
    simp [isWord.1]
  induction list with
  | nil => rfl
  | cons first others ih =>
      rw [List.forall_mem_cons] at all
      cases others with
      | nil =>
          rw [List.intercalate_singleton]
          exact single all.1
      | cons second rest =>
          have blank : isBlank ' ' = true := by decide
          have here := single all.1
          rw [words] at here
          rw [List.intercalate_cons_cons, List.append_assoc,
            List.singleton_append, words, piecesAt_append_cons first blank,
            List.filter_append, here, ← words, ih all.2]
          rfl

/-- Joined texts are the first one and the others with what parts them. -/
theorem intercalate_cons (separator : Char) (first : Text)
    (others : List Text) :
    [separator].intercalate (first :: others) =
      first ++ others.flatMap (separator :: ·) := by
  induction others generalizing first with
  | nil => simp
  | cons second rest ih =>
      rw [List.intercalate_cons_cons, ih]
      simp

theorem length_intercalate {list : List Text} (nonempty : list ≠ []) :
    ([' '].intercalate list).length + 1 = spread list := by
  induction list with
  | nil => exact absurd rfl nonempty
  | cons first others ih =>
      cases others with
      | nil => simp
      | cons second rest =>
          have later := ih (List.cons_ne_nil second rest)
          rw [List.intercalate_cons_cons, spread_cons, List.length_append,
            List.length_append, List.length_singleton]
          omega

/-- Joined words are no longer than the text that they are words of. -/
theorem length_intercalate_words {text : Text} {joined : List Text}
    (sublist : joined.Sublist (words text)) :
    ([' '].intercalate joined).length ≤ text.length := by
  cases joined with
  | nil => exact Nat.zero_le _
  | cons first others =>
      have joins := length_intercalate (List.cons_ne_nil first others)
      have fewer : spread (first :: others) ≤ spread (piecesAt isBlank text) :=
        spread_le_of_sublist (sublist.trans List.filter_sublist)
      have all : spread (piecesAt isBlank text) = text.length + 1 :=
        spread_pieces _ _ () text
      omega

theorem mem_intercalate {α : Type} {separator : List α} {list : List (List α)}
    {element : α} (member : element ∈ separator.intercalate list) :
    element ∈ separator ∨ ∃ word ∈ list, element ∈ word := by
  induction list with
  | nil => cases member
  | cons first others ih =>
      cases others with
      | nil =>
          rw [List.intercalate_singleton] at member
          exact Or.inr ⟨first, List.mem_cons_self, member⟩
      | cons second rest =>
          rw [List.intercalate_cons_cons, List.append_assoc] at member
          rcases List.mem_append.mp member with here | behind
          · exact Or.inr ⟨first, List.mem_cons_self, here⟩
          · rcases List.mem_append.mp behind with between | later
            · exact Or.inl between
            · exact (ih later).imp_right fun ⟨word, inside, found⟩ =>
                ⟨word, List.mem_cons_of_mem first inside, found⟩

theorem mem_of_mem_words {text word : Text} (member : word ∈ words text)
    {character : Char} (inside : character ∈ word) : character ∈ text :=
  (infix_of_mem_pieces _ _ (List.mem_of_mem_filter member)).subset inside

/-! ## The end of a text -/

theorem length_words_cons (character : Char) (rest : Text) :
    (words rest).length ≤ (words (character :: rest)).length := by
  cases blank : isBlank character with
  | true =>
      have same : words (character :: rest) = words rest := by
        rw [words, piecesAt_cons_of_pos blank,
          List.filter_cons_of_neg (by simp), words]
      exact Nat.le_of_eq (congrArg List.length same.symm)
  | false =>
      rw [words, words, piecesAt_cons_of_neg blank]
      cases piecesAt isBlank rest with
      | nil => exact Nat.zero_le _
      | cons first others =>
          have grown : ((consFirst character (first :: others)).filter
              fun word => !word.isEmpty) =
                (character :: first) :: others.filter fun word =>
                  !word.isEmpty := by
            simp [consFirst]
          rw [grown, List.length_cons, List.filter_cons]
          split
          · exact Nat.le_refl _
          · exact Nat.le_add_right _ 1

/-- The end of a text has no more words than the text. -/
theorem length_words_of_suffix {text rest : Text} (suffix : rest <:+ text) :
    (words rest).length ≤ (words text).length := by
  obtain ⟨before, rfl⟩ := suffix
  induction before with
  | nil => exact Nat.le_refl _
  | cons character others ih =>
      exact Nat.le_trans ih (length_words_cons character (others ++ rest))

/-- A text has room for its words. -/
theorem length_words_le (text : Text) : (words text).length ≤ text.length := by
  have filled : ∀ list : List Text, (∀ word ∈ list, IsWord word) →
      2 * list.length ≤ spread list := by
    intro list all
    induction list with
    | nil => exact Nat.le_refl 0
    | cons first others ih =>
        rw [List.forall_mem_cons] at all
        have here := List.length_pos_iff.mpr all.1.1
        have later := ih all.2
        rw [spread_cons, List.length_cons]
        omega
  have twice := filled (words text) fun word => isWord_of_mem_words
  have fewer : spread (words text) ≤ spread (piecesAt isBlank text) :=
    spread_le_of_sublist List.filter_sublist
  have all : spread (piecesAt isBlank text) = text.length + 1 :=
    spread_pieces _ _ () text
  omega

end Snowform.Text
