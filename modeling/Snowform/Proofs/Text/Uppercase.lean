import Snowform.Text.Upper
import Mathlib.Data.List.Basic

/-!
# Capitals

Letters and digits of ASCII are told by their codes.

Every character has a capital, and no capital but that of a double quote has
a double quote in it.  What stands between double quotes still does when the
text is written in capitals.
-/

namespace Snowform.Text

/-! ## Letters and digits -/

theorem isUpper_iff_toNat {character : Char} :
    character.isUpper = true ↔
      65 ≤ character.toNat ∧ character.toNat ≤ 90 :=
  decide_eq_true_iff

theorem isLower_iff_toNat {character : Char} :
    character.isLower = true ↔
      97 ≤ character.toNat ∧ character.toNat ≤ 122 :=
  Bool.and_eq_true_iff.trans
    (and_congr decide_eq_true_iff decide_eq_true_iff)

theorem isDigit_iff_toNat {character : Char} :
    character.isDigit = true ↔
      48 ≤ character.toNat ∧ character.toNat ≤ 57 :=
  Bool.and_eq_true_iff.trans
    (and_congr decide_eq_true_iff decide_eq_true_iff)

/-! ## Texts in capitals -/

/-- Capitals are written character by character. -/
theorem upper_append (first second : Text) :
    upper (first ++ second) = upper first ++ upper second :=
  List.flatMap_append

theorem eq_of_ofNat_eq_quote {code : Nat} (same : Char.ofNat code = '"') :
    code = 34 := by
  have codes := congrArg Char.toNat same
  by_cases valid : code.isValidChar
  · have kept : Char.ofNat code = Char.ofNatAux code valid := dif_pos valid
    rw [kept] at codes
    exact codes
  · have replaced : Char.ofNat code = '\x00' := dif_neg valid
    rw [replaced] at codes
    exact absurd codes (by decide)

/-- No run of capitals reaches down to the double quote. -/
theorem quote_lt_of_mem_capitalRuns {run : ShiftRun}
    (member : run ∈ capitalRuns) : 34 < (run.first : Int) + run.shift := by
  have all : ∀ run ∈ capitalRuns, 34 < (run.first : Int) + run.shift := by
    decide +kernel
  exact all run member

/-- No character but a quote has a quote for its capital. -/
theorem shiftBy_capitalRuns_ne_quote {character : Char}
    (other : character ≠ '"') : shiftBy capitalRuns character ≠ '"' := by
  rw [shiftBy]
  split
  next run found =>
    intro quote
    have code := eq_of_ofNat_eq_quote quote
    have above := quote_lt_of_mem_capitalRuns (List.mem_of_find?_eq_some found)
    have holds := List.find?_some found
    simp only [ShiftRun.holds, Bool.and_eq_true, decide_eq_true_eq] at holds
    omega
  next => exact other

/-- The capitals of several characters are neither empty nor quotes. -/
theorem wideCapitals_keep {entry : Nat × List Nat}
    (member : entry ∈ wideCapitals) : entry.2 ≠ [] ∧ 34 ∉ entry.2 := by
  have all : ∀ entry ∈ wideCapitals, entry.2 ≠ [] ∧ 34 ∉ entry.2 := by
    decide +kernel
  exact all entry member

/-- The capital of a character other than a quote has no quote. -/
theorem not_quote_mem_capital {character : Char} (other : character ≠ '"') :
    '"' ∉ capital character := by
  rw [capital]
  split
  next =>
    -- Only small letters are moved, and only by the distance to the large ones.
    rw [List.mem_singleton]
    intro quote
    by_cases small : 'a'.val ≤ character.val ∧ character.val ≤ 'z'.val
    · have large : character.toUpper = _ := dif_pos small
      have bounds : 97 ≤ character.val.toNat ∧ character.val.toNat ≤ 122 :=
        small
      have code : character.toUpper.val.toNat = _ :=
        congrArg (fun other : Char => other.val.toNat) large
      have left : character.toUpper.val.toNat = 34 := by
        rw [← quote]
        decide
      have gap : ('A'.val - 'a'.val).toNat = 4294967264 := rfl
      rw [left, UInt32.toNat_add, gap] at code
      omega
    · have unchanged : character.toUpper = character := dif_neg small
      rw [unchanged] at quote
      exact other quote.symm
  next =>
    split
    next entry found =>
      intro quote
      obtain ⟨code, inside, same⟩ := List.mem_map.mp quote
      rw [eq_of_ofNat_eq_quote same] at inside
      exact (wideCapitals_keep (List.mem_of_find?_eq_some found)).2 inside
    next =>
      rw [List.mem_singleton]
      exact (shiftBy_capitalRuns_ne_quote other).symm

theorem capital_ne_nil (character : Char) : capital character ≠ [] := by
  rw [capital]
  split
  next => exact List.cons_ne_nil _ _
  next =>
    split
    next entry found =>
      rw [Ne, List.map_eq_nil_iff]
      exact (wideCapitals_keep (List.mem_of_find?_eq_some found)).1
    next => exact List.cons_ne_nil _ _

/-- A text without quotes has none in capitals. -/
theorem not_quote_mem_upper {text : Text} (absent : '"' ∉ text) :
    '"' ∉ upper text := by
  intro member
  obtain ⟨character, inside, quote⟩ := List.mem_flatMap.mp member
  have other : character ≠ '"' := by
    rintro rfl
    exact absent inside
  exact not_quote_mem_capital other quote

theorem upper_ne_nil {text : Text} (nonempty : text ≠ []) :
    upper text ≠ [] := by
  obtain ⟨character, rest, rfl⟩ := List.exists_cons_of_ne_nil nonempty
  exact List.append_ne_nil_of_left_ne_nil (capital_ne_nil character) _

end Snowform.Text
