import Snowform.Proofs.Text.RangeTree
import Snowform.Proofs.Text.Uppercase
import Snowform.Terraform.Substitution
import Snowform.Text.Blank
import Snowform.Text.Fold

/-!
# Folding to ASCII

Beside the letters of ASCII only the long s and the Kelvin sign are folded to
a letter of ASCII.  So what folds to an ASCII word character is a word
character itself.

Folding keeps apart what belongs to words and what does not: every run of the
table lies among the word characters and stays there.
-/

namespace Snowform.Text

open Terraform

/-! ## Word characters of ASCII -/

theorem isAsciiWord_iff {character : Char} :
    isAsciiWord character = true ↔
      (65 ≤ character.toNat ∧ character.toNat ≤ 90 ∨
        97 ≤ character.toNat ∧ character.toNat ≤ 122) ∨
        48 ≤ character.toNat ∧ character.toNat ≤ 57 ∨ character = '_' := by
  have parts : isAsciiWord character =
      (character.isUpper || character.isLower || character.isDigit ||
        character == '_') := rfl
  rw [parts, Bool.or_eq_true, Bool.or_eq_true, Bool.or_eq_true,
    isUpper_iff_toNat, isLower_iff_toNat, isDigit_iff_toNat, beq_iff_eq,
    or_assoc]

theorem toNat_of_isAsciiWord {character : Char}
    (word : isAsciiWord character = true) :
    0 < character.toNat ∧ character.toNat < 0x80 := by
  rcases isAsciiWord_iff.mp word with (large | small) | digit | rfl
  · omega
  · omega
  · omega
  · decide

theorem isWord_of_isAsciiWord {character : Char}
    (word : isAsciiWord character = true) : isWord character = true := by
  rw [isWord, if_pos (toNat_of_isAsciiWord word).2, word]

/-- What holds for the codes of ASCII holds for its characters. -/
theorem ascii_induction {motive : Char → Prop}
    (all : ∀ code < 0x80, motive (Char.ofNat code)) {character : Char}
    (inside : character.toNat < 0x80) : motive character := by
  have here := all character.toNat inside
  rwa [Char.ofNat_toNat] at here

/-- Letters keep their place among the word characters in lower case. -/
theorem isAsciiWord_toLower (character : Char) :
    isAsciiWord character.toLower = isAsciiWord character := by
  by_cases large : 'A'.val ≤ character.val ∧ character.val ≤ 'Z'.val
  · have lower : character.toLower.val =
        character.val + ('a'.val - 'A'.val) :=
      congrArg Char.val (dif_pos large)
    have bounds : 65 ≤ character.toNat ∧ character.toNat ≤ 90 := large
    have code : character.toLower.toNat = character.toNat + 32 := by
      have sum := congrArg UInt32.toNat lower
      have gap : ('a'.val - 'A'.val).toNat = 32 := rfl
      rw [UInt32.toNat_add, gap] at sum
      change character.toLower.val.toNat = character.val.toNat + 32
      change 65 ≤ character.val.toNat ∧ character.val.toNat ≤ 90 at bounds
      omega
    have word : isAsciiWord character = true :=
      isAsciiWord_iff.mpr (.inl (.inl bounds))
    have lowerWord : isAsciiWord character.toLower = true :=
      isAsciiWord_iff.mpr (.inl (.inr (by omega)))
    rw [word, lowerWord]
  · have unchanged : character.toLower = character := dif_neg large
    rw [unchanged]

/-! ## Folding -/

/-- The two runs that lead from outside ASCII into it. -/
theorem foldRuns_bound {run : ShiftRun} (member : run ∈ foldRuns) :
    0x80 ≤ (run.first : Int) + run.shift ∨
      run.first = run.last ∧ (run.first = 0x17F ∨ run.first = 0x212A) := by
  have all : ∀ run ∈ foldRuns, 0x80 ≤ (run.first : Int) + run.shift ∨
      run.first = run.last ∧ (run.first = 0x17F ∨ run.first = 0x212A) := by
    set_option maxRecDepth 4000 in decide
  exact all run member

/-- The two characters outside ASCII that are folded to letters of ASCII. -/
theorem fold_special :
    (fold 'ſ' = 's' ∧ isWord 'ſ' = true) ∧
      fold '\u212a' = 'k' ∧ isWord '\u212a' = true := by
  set_option maxRecDepth 4000 in decide

/-- A code point that is not valid is read as the null character. -/
theorem toNat_ofNat {code : Nat} (other : Char.ofNat code ≠ '\x00') :
    (Char.ofNat code).toNat = code := by
  by_cases valid : code.isValidChar
  · have kept : Char.ofNat code = Char.ofNatAux code valid := dif_pos valid
    rw [kept]
    rfl
  · exact absurd (dif_neg valid) other

theorem isStemCharacter_of_fold {character : Char}
    (outside : ¬ character.toNat < 0x80)
    (word : isAsciiWord (fold character) = true) :
    character = 'ſ' ∨ character = '\u212a' := by
  have code := toNat_of_isAsciiWord word
  rw [fold, if_neg outside, shiftBy] at code
  split at code
  next run found =>
    have valid : Char.ofNat (Int.toNat (character.toNat + run.shift)) ≠
        '\x00' := by
      intro null
      rw [null] at code
      exact absurd code.1 (by decide)
    rw [toNat_ofNat valid] at code
    have holds := List.find?_some found
    simp only [ShiftRun.holds, Bool.and_eq_true, decide_eq_true_eq] at holds
    rcases foldRuns_bound (List.mem_of_find?_eq_some found) with
      above | ⟨single, long | kelvin⟩
    · omega
    · have same : character.toNat = 'ſ'.toNat := by
        change character.toNat = 0x17F
        omega
      exact .inl (Char.toNat_inj.mp same)
    · have same : character.toNat = '\u212a'.toNat := by
        change character.toNat = 0x212A
        omega
      exact .inr (Char.toNat_inj.mp same)
  next => omega

/-- The characters of a stem are those that fold to a word character. -/
theorem isStemCharacter_eq (character : Char) :
    isStemCharacter character = isAsciiWord (fold character) := by
  by_cases inside : character.toNat < 0x80
  · have lower : fold character = character.toLower := if_pos inside
    have notLong : character ≠ 'ſ' := by
      rintro rfl
      exact absurd inside (by decide)
    have notKelvin : character ≠ '\u212a' := by
      rintro rfl
      exact absurd inside (by decide)
    rw [lower, isAsciiWord_toLower, isStemCharacter,
      beq_eq_false_iff_ne.mpr notLong, beq_eq_false_iff_ne.mpr notKelvin,
      Bool.or_false, Bool.or_false]
  · have notWord : isAsciiWord character = false := by
      rw [Bool.eq_false_iff]
      exact fun word => inside (toNat_of_isAsciiWord word).2
    rw [Bool.eq_iff_iff, isStemCharacter, notWord, Bool.false_or,
      Bool.or_eq_true, beq_iff_eq, beq_iff_eq]
    constructor
    · rintro (rfl | rfl)
      · rw [fold_special.1.1]
        rfl
      · rw [fold_special.2.1]
        rfl
    · exact isStemCharacter_of_fold inside

theorem isWord_of_fold {character : Char}
    (word : isAsciiWord (fold character) = true) :
    isWord character = true := by
  by_cases inside : character.toNat < 0x80
  · have lower : fold character = character.toLower := if_pos inside
    rw [lower, isAsciiWord_toLower] at word
    rw [isWord, if_pos inside, word]
  · rcases isStemCharacter_of_fold inside word with rfl | rfl
    · exact fold_special.1.2
    · exact fold_special.2.2

/-! ## Words and case -/

/--
Whether one range of word characters holds the code points from one to
another, none of which is a surrogate.
-/
def areWordCodes (first last : Nat) : Bool :=
  match wordTree.find? last with
  | none => false
  | some range => range.1.ble first &&
      (last.blt 0xD800 || Nat.blt 0xDFFF first && last.blt 0x110000)

/-- Whether a run holds word characters only, once they are moved. -/
def ShiftRun.keepsWords (run : ShiftRun) (shift : Int) : Bool :=
  let first : Int := run.first + shift
  areWordCodes first.toNat (run.last + shift).toNat ||
    (List.range (run.last + 1 - run.first)).all fun step =>
      step % run.stride != 0 ||
        areWordCodes (first + step).toNat (first + step).toNat

theorem foldRuns_words : ∀ run ∈ foldRuns,
    0x80 ≤ run.first ∧ run.keepsWords 0 = true ∧
      (run.keepsWords run.shift = true ∨
        run.first = run.last ∧ (run.first = 0x17F ∨ run.first = 0x212A)) := by
  decide +kernel

/-- A code point among those of word characters is one of a word character. -/
theorem isWord_ofNat {first last code : Nat}
    (word : areWordCodes first last = true) (above : first ≤ code)
    (below : code ≤ last) :
    (Char.ofNat code).toNat = code ∧ isWord (Char.ofNat code) = true := by
  have low : ∀ range ∈ wordRanges, 0x80 ≤ range.1 := by
    set_option maxRecDepth 4000 in decide
  rw [areWordCodes] at word
  split at word
  next => cases word
  next range found =>
    obtain ⟨member, ends⟩ := mem_wordRanges_of_find? found
    simp only [Bool.and_eq_true, Bool.or_eq_true, Nat.ble_eq, Nat.blt_eq]
      at word
    have valid : code.isValidChar := by
      change code < 0xD800 ∨ 0xDFFF < code ∧ code < 0x110000
      omega
    have number : (Char.ofNat code).toNat = code := by
      have kept : Char.ofNat code = Char.ofNatAux code valid := dif_pos valid
      rw [kept]
      rfl
    have outside : ¬ code < 0x80 := by
      have bound := low range member
      omega
    refine ⟨number, ?_⟩
    rw [isWord, number, if_neg outside, inRanges, List.any_eq_true]
    refine ⟨range, member, ?_⟩
    rw [number, Bool.and_eq_true, decide_eq_true_eq, decide_eq_true_eq]
    omega

/-- What a run holds is a word character, moved or not. -/
theorem ShiftRun.keepsWords_at {run : ShiftRun} {shift : Int}
    (keeps : run.keepsWords shift = true) {code : Nat}
    (holds : run.holds code = true) :
    isWord (Char.ofNat (code + shift).toNat) = true ∧
      (Char.ofNat (code + shift).toNat).toNat = (code + shift).toNat := by
  simp only [ShiftRun.holds, Bool.and_eq_true, decide_eq_true_eq, beq_iff_eq]
    at holds
  rw [ShiftRun.keepsWords, Bool.or_eq_true, List.all_eq_true] at keeps
  rcases keeps with whole | each
  · exact (isWord_ofNat whole (by omega) (by omega)).symm
  · have here := each (code - run.first) (List.mem_range.mpr (by omega))
    have place : (run.first : Int) + shift + ((code - run.first : Nat) : Int) =
        code + shift := by
      omega
    rw [holds.2, place] at here
    have word : areWordCodes (code + shift).toNat (code + shift).toNat =
        true := by
      simpa using here
    exact (isWord_ofNat word (Nat.le_refl _) (Nat.le_refl _)).symm

/-- Folding leads from word characters to word characters only. -/
theorem isWord_fold (character : Char) :
    isWord (fold character) = isWord character := by
  by_cases inside : character.toNat < 0x80
  · refine ascii_induction (motive := fun character =>
      isWord (fold character) = isWord character) ?_ inside
    set_option maxRecDepth 4000 in decide
  by_cases intoAscii : character = 'ſ' ∨ character = '\u212a'
  · rcases intoAscii with rfl | rfl
    · rw [fold_special.1.1, fold_special.1.2]
      rfl
    · rw [fold_special.2.1, fold_special.2.2]
      rfl
  rw [fold, if_neg inside, shiftBy]
  split
  next run found =>
    have holds := List.find?_some found
    obtain ⟨-, own, moved⟩ :=
      foldRuns_words run (List.mem_of_find?_eq_some found)
    have word := (ShiftRun.keepsWords_at own holds).1
    rw [Int.add_zero, Int.toNat_natCast, Char.ofNat_toNat] at word
    rw [word]
    rcases moved with keeps | ⟨single, special⟩
    · exact (ShiftRun.keepsWords_at keeps holds).1
    · simp only [ShiftRun.holds, Bool.and_eq_true, decide_eq_true_eq] at holds
      have number : character.toNat = 'ſ'.toNat ∨
          character.toNat = '\u212a'.toNat := by
        change character.toNat = 0x17F ∨ character.toNat = 0x212A
        omega
      exact absurd (number.imp Char.toNat_inj.mp Char.toNat_inj.mp) intoAscii
  next => rfl

theorem isWord_of_sameLetter {letter character : Char}
    (word : isWord letter = true)
    (same : sameLetter letter character = true) :
    isWord character = true := by
  rwa [← isWord_fold, ← beq_iff_eq.mp same, isWord_fold]

theorem not_isBlank_of_isWord {character : Char}
    (word : isWord character = true) : isBlank character = false := by
  have apart : (wordRanges.all fun words => blankRanges.all fun blanks =>
      blanks.2.blt words.1 || words.2.blt blanks.1) = true := by
    decide +kernel
  rw [Bool.eq_false_iff]
  intro blank
  by_cases inside : character.toNat < 0x80
  · have apartInside := ascii_induction (motive := fun character =>
      isBlank character = true → isWord character = false)
        (by set_option maxRecDepth 4000 in decide) inside
    cases (apartInside blank).symm.trans word
  · rw [isWord, if_neg inside] at word
    simp only [isBlank, inRanges, List.any_eq_true, Bool.and_eq_true,
      decide_eq_true_eq] at blank word
    obtain ⟨blanks, blankMember, lower, upper⟩ := blank
    obtain ⟨words, wordMember, low, high⟩ := word
    have between := List.all_eq_true.mp
      (List.all_eq_true.mp apart words wordMember) blanks blankMember
    simp only [Bool.or_eq_true, Nat.blt_eq] at between
    omega

end Snowform.Text
