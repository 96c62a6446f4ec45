import Snowform.Lexical.Keyword
import Snowform.Proofs.Text.Searching
import Snowform.Terraform.Wordwise
import Mathlib.Data.List.TakeWhile

/-!
# Substitution of words

A recogniser that is met by whole words only exchanges every word of a text,
one by one.  Two such exchanges in a row are one, when the first of them puts
in nothing that could become part of a word around it.
-/

namespace Snowform.Text

open Lexical

/-! ## Words of a text -/

theorem startsWith_isWord_cons (character : Char) (rest : Text) :
    startsWith isWord (character :: rest) = isWord character := rfl

theorem startsWith_dropWhile (text : Text) :
    startsWith isWord (text.dropWhile isWord) = false := by
  induction text with
  | nil => rfl
  | cons character rest ih =>
      cases word : isWord character with
      | true => rwa [List.dropWhile_cons_of_pos word]
      | false =>
          rwa [List.dropWhile_cons_of_neg (Bool.eq_false_iff.mp word)]

/-- Whether a text is a word, with what stands next to it left out. -/
def IsWordText (text : Text) : Prop :=
  text ≠ [] ∧ ∀ character ∈ text, isWord character = true

instance (text : Text) : Decidable (IsWordText text) :=
  decidable_of_iff (text ≠ [] ∧ text.all isWord = true)
    (and_congr_right fun _ => List.all_eq_true)

theorem startsWith_word {word : Text} (isWordText : IsWordText word)
    (rest : Text) : startsWith isWord (word ++ rest) = true := by
  obtain ⟨first, others, rfl⟩ := List.exists_cons_of_ne_nil isWordText.1
  exact isWordText.2 first List.mem_cons_self

theorem isWordText_takeWhile {text : Text}
    (starts : startsWith isWord text = true) :
    IsWordText (text.takeWhile isWord) := by
  cases text with
  | nil => cases starts
  | cons character rest =>
      have word : isWord character = true := starts
      constructor
      · rw [List.takeWhile_cons_of_pos word]
        exact List.cons_ne_nil _ _
      · exact fun _ => List.mem_takeWhile_imp

theorem takeWhile_word {word : Text} (isWordText : IsWordText word)
    {rest : Text} (ends : startsWith isWord rest = false) :
    (word ++ rest).takeWhile isWord = word := by
  have stops : rest.takeWhile isWord = [] := by
    cases rest with
    | nil => rfl
    | cons character others =>
        exact List.takeWhile_cons_of_neg (Bool.eq_false_iff.mp ends)
  rw [List.takeWhile_append_of_pos isWordText.2, stops, List.append_nil]

theorem dropWhile_word {word : Text} (isWordText : IsWordText word)
    {rest : Text} (ends : startsWith isWord rest = false) :
    (word ++ rest).dropWhile isWord = rest := by
  rw [List.dropWhile_append_of_pos isWordText.2]
  cases rest with
  | nil => rfl
  | cons character others =>
      exact List.dropWhile_cons_of_neg (Bool.eq_false_iff.mp ends)

/-- The first character of a word, and how the others are read behind it. -/
theorem IsWordText.exists_cons {word : Text} (isWordText : IsWordText word)
    {rest : Text} (ends : startsWith isWord rest = false) :
    ∃ first others, word = first :: others ∧ isWord first = true ∧
      (others ++ rest).takeWhile isWord = others ∧
        (others ++ rest).dropWhile isWord = rest := by
  have taken := takeWhile_word isWordText ends
  have dropped := dropWhile_word isWordText ends
  obtain ⟨first, others, rfl⟩ := List.exists_cons_of_ne_nil isWordText.1
  have starts : isWord first = true := isWordText.2 first List.mem_cons_self
  rw [List.cons_append, List.takeWhile_cons_of_pos starts] at taken
  rw [List.cons_append, List.dropWhile_cons_of_pos starts] at dropped
  exact ⟨first, others, rfl, starts, (List.cons.inj taken).2, dropped⟩

section

variable (change : Text → Text)

@[simp]
theorem exchangeWords_nil : exchangeWords change [] = [] := by
  rw [exchangeWords]

theorem exchangeWords_cons {character : Char}
    (between : isWord character = false) (rest : Text) :
    exchangeWords change (character :: rest) =
      character :: exchangeWords change rest := by
  rw [exchangeWords, if_neg (Bool.eq_false_iff.mp between)]

theorem exchangeWords_word {word : Text} (isWordText : IsWordText word)
    {rest : Text} (ends : startsWith isWord rest = false) :
    exchangeWords change (word ++ rest) =
      change word ++ exchangeWords change rest := by
  obtain ⟨first, others, rfl, starts, taken, dropped⟩ :=
    isWordText.exists_cons ends
  rw [List.cons_append, exchangeWords, if_pos starts, taken, dropped]

end

/-- A text is nothing, or it goes on behind a character or a word. -/
theorem wordInduction {holds : Text → Prop} (nil : holds [])
    (between : ∀ character rest, isWord character = false → holds rest →
      holds (character :: rest))
    (word : ∀ word rest, IsWordText word → startsWith isWord rest = false →
      holds rest → holds (word ++ rest)) (text : Text) : holds text := by
  fun_induction exchangeWords id text with
  | case1 => exact nil
  | case2 character rest starts ih =>
      have isWordText : IsWordText (character :: rest.takeWhile isWord) := by
        have begun : startsWith isWord (character :: rest) = true := starts
        have whole := isWordText_takeWhile begun
        rwa [List.takeWhile_cons_of_pos starts] at whole
      have whole := word _ _ isWordText (startsWith_dropWhile rest) ih
      rwa [List.cons_append, List.takeWhile_append_dropWhile] at whole
  | case3 character rest other ih =>
      exact between character rest (Bool.eq_false_iff.mpr other) ih

/-- Whether a text keeps its start, as far as words are concerned. -/
theorem startsWith_exchangeWords (change : Text → Text) {text : Text}
    (starts : startsWith isWord text = false) :
    startsWith isWord (exchangeWords change text) = false := by
  cases text with
  | nil => rw [exchangeWords_nil, starts]
  | cons character rest =>
      have between : isWord character = false := starts
      rwa [exchangeWords_cons change between]

/-- Words are exchanged piece by piece, if no word is cut. -/
theorem exchangeWords_append (change : Text → Text) (first : Text)
    {second : Text} (starts : startsWith isWord second = false) :
    exchangeWords change (first ++ second) =
      exchangeWords change first ++ exchangeWords change second := by
  induction first using wordInduction with
  | nil => rw [exchangeWords_nil, List.nil_append, List.nil_append]
  | between character rest other ih =>
      rw [List.cons_append, exchangeWords_cons change other, ih,
        exchangeWords_cons change other, List.cons_append]
  | word word rest isWordText ends ih =>
      have later : startsWith isWord (rest ++ second) = false := by
        cases rest with
        | nil => exact starts
        | cons character others => exact ends
      rw [List.append_assoc, exchangeWords_word change isWordText later, ih,
        exchangeWords_word change isWordText ends, List.append_assoc]

/--
Exchanging words twice is exchanging them once.  What is put in for a word
need not be a word: it is what its own words become.
-/
theorem exchangeWords_exchangeWords (change later : Text → Text)
    (text : Text) :
    exchangeWords later (exchangeWords change text) =
      exchangeWords (fun word => exchangeWords later (change word)) text := by
  induction text using wordInduction with
  | nil => rw [exchangeWords_nil, exchangeWords_nil, exchangeWords_nil]
  | between character rest other ih =>
      rw [exchangeWords_cons _ other, exchangeWords_cons _ other,
        exchangeWords_cons _ other, ih]
  | word word rest isWordText ends ih =>
      rw [exchangeWords_word _ isWordText ends,
        exchangeWords_word _ isWordText ends,
        exchangeWords_append later _ (startsWith_exchangeWords change ends),
        ih]

theorem exchangeWords_congr {change other : Text → Text}
    (same : ∀ word, IsWordText word → change word = other word)
    (text : Text) : exchangeWords change text = exchangeWords other text := by
  induction text using wordInduction with
  | nil => rw [exchangeWords_nil, exchangeWords_nil]
  | between character rest between ih =>
      rw [exchangeWords_cons _ between, exchangeWords_cons _ between, ih]
  | word word rest isWordText ends ih =>
      rw [exchangeWords_word _ isWordText ends,
        exchangeWords_word _ isWordText ends, ih, same word isWordText]

@[simp]
theorem exchangeWords_self (text : Text) :
    exchangeWords (fun word => word) text = text := by
  induction text using wordInduction with
  | nil => rw [exchangeWords_nil]
  | between character rest other ih => rw [exchangeWords_cons _ other, ih]
  | word word rest isWordText ends ih =>
      rw [exchangeWords_word _ isWordText ends, ih]

/-! ## Recognisers of words -/

/--
A recogniser that is met where a word starts, takes the whole word and is
told by nothing but the word.
-/
def MeetsWords (recognise : Recogniser Char Text)
    (exchange? : Text → Option Text) : Prop :=
  ∀ behind ahead, recognise behind ahead =
    if startsWith isWord behind = false ∧ startsWith isWord ahead = true then
      (exchange? (ahead.takeWhile isWord)).map fun found =>
        (found, ahead.dropWhile isWord)
    else
      none

section

variable {recognise : Recogniser Char Text} {exchange? : Text → Option Text}
  (meets : MeetsWords recognise exchange?)

include meets

theorem MeetsWords.eq_none {behind ahead : Text}
    (inside : startsWith isWord behind = true ∨
      startsWith isWord ahead = false) :
    recognise behind ahead = none := by
  rw [meets, if_neg]
  rintro ⟨start, word⟩
  rcases inside with behindWord | noWord
  · exact absurd (start.symm.trans behindWord) (by decide)
  · exact absurd (noWord.symm.trans word) (by decide)

theorem MeetsWords.eq_map {behind word rest : Text}
    (start : startsWith isWord behind = false)
    (isWordText : IsWordText word) (ends : startsWith isWord rest = false) :
    recognise behind (word ++ rest) =
      (exchange? word).map fun found => (found, rest) := by
  rw [meets, if_pos ⟨start, startsWith_word isWordText rest⟩,
    takeWhile_word isWordText ends,
    dropWhile_word isWordText ends]

/-- Nothing is exchanged inside a word. -/
theorem MeetsWords.substituteFrom_inside {inside : Text}
    (all : ∀ character ∈ inside, isWord character = true) {behind : Text}
    (word : startsWith isWord behind = true) (rest : Text) :
    substituteFrom recognise 0 behind (inside ++ rest) =
      inside ++ substituteFrom recognise 0 (inside.reverse ++ behind) rest := by
  induction inside generalizing behind with
  | nil => rfl
  | cons character others ih =>
      rw [List.forall_mem_cons] at all
      rw [List.cons_append, substituteFrom, meets.eq_none (.inl word)]
      have begun : startsWith isWord (character :: behind) = true := all.1
      have later := ih all.2 begun
      rw [List.reverse_cons, List.append_assoc]
      exact congrArg (character :: ·) later

/-- A search for words exchanges the words of the text that is left. -/
theorem MeetsWords.substituteFrom_eq (text : Text) {behind : Text}
    (start : startsWith isWord behind = false ∨
      startsWith isWord text = false) :
    substituteFrom recognise 0 behind text =
      exchangeWords (fun word => (exchange? word).getD word) text := by
  induction text using wordInduction generalizing behind with
  | nil => rw [exchangeWords_nil, substituteFrom]
  | between character rest other ih =>
      have noWord : startsWith isWord (character :: rest) = false := other
      rw [exchangeWords_cons _ other, substituteFrom,
        meets.eq_none (.inr noWord)]
      exact congrArg (character :: ·) (ih (.inl other))
  | word word rest isWordText ends ih =>
      obtain ⟨first, others, rfl⟩ := List.exists_cons_of_ne_nil isWordText.1
      have all := List.forall_mem_cons.mp isWordText.2
      have outside : startsWith isWord behind = false := by
        rcases start with outside | noWord
        · exact outside
        · exact absurd (noWord.symm.trans all.1) (by decide)
      have here := meets.eq_map outside isWordText ends
      rw [exchangeWords_word _ isWordText ends]
      rw [List.cons_append] at here ⊢
      rw [substituteFrom, here]
      cases exchange? (first :: others) with
      | none =>
          -- The word stays, and nothing starts inside of it.
          have begun : startsWith isWord (first :: behind) = true := all.1
          have stays := meets.substituteFrom_inside all.2 begun rest
          rw [Option.map_none, Option.getD_none]
          simp only [stays, List.cons_append]
          rw [ih (.inr ends)]
      | some found =>
          have size : (others ++ rest).length - rest.length =
              others.length := by
            rw [List.length_append, Nat.add_sub_cancel]
          rw [Option.map_some, Option.getD_some]
          simp only [size, substituteFrom_length]
          rw [ih (.inr ends)]

/-- Exchanging what a recogniser of words finds is exchanging the words. -/
theorem MeetsWords.substitute_eq (text : Text) :
    substitute recognise text =
      exchangeWords (fun word => (exchange? word).getD word) text :=
  meets.substituteFrom_eq text (.inl rfl)

end

end Snowform.Text
