import Snowform.Ddl.Listing
import Snowform.Proofs.Lexical.Opening

/-!
# What is open in a list

A quote that opens in a list is open up to the first one like it that is not
doubled.  Between the two nothing else opens or closes, so that what is open
behind a quoted stretch is what was open in front of it.
-/

namespace Snowform

open Text Lexical

/-! ## Single characters -/

theorem separates_of_ne {character : Char} (other : character ≠ ',')
    (nesting : Nesting) : nesting.separates character = false := by
  rw [Nesting.separates, beq_eq_false_iff_ne.mpr other, Bool.and_false]

namespace Nesting

/-- A character that is no quote and no parenthesis opens and closes nothing. -/
theorem advance_of_plain {nesting : Nesting} (outside : nesting.quote = none)
    {character : Char} (plain : character ∉ ['\'', '"', '(', ')']) :
    nesting.advance character = nesting := by
  simp only [List.mem_cons, List.not_mem_nil, or_false, not_or] at plain
  simp [advance, outside, plain]

theorem advance_of_isBlank {nesting : Nesting} (outside : nesting.quote = none)
    {character : Char} (blank : isBlank character = true) :
    nesting.advance character = nesting := by
  refine advance_of_plain outside ?_
  simp only [List.mem_cons, List.not_mem_nil, or_false, not_or]
  refine ⟨?_, ?_, ?_, ?_⟩ <;>
    · rintro rfl
      cases blank

theorem advance_opening {quote : Char} (isQuote : quote = '\'' ∨ quote = '"')
    (depth : Int) : advance ⟨none, depth⟩ quote = ⟨some quote, depth⟩ :=
  if_pos isQuote

theorem advance_closing (quote : Char) (depth : Int) :
    advance ⟨some quote, depth⟩ quote = ⟨none, depth⟩ :=
  if_pos rfl

theorem advance_quoted {quote character : Char} (differs : character ≠ quote)
    (depth : Int) :
    advance ⟨some quote, depth⟩ character = ⟨some quote, depth⟩ :=
  if_neg differs

end Nesting

/-! ## Quoted stretches -/

/-- A quoted stretch that is closed leaves no quote open. -/
theorem foldl_advance_quotedRest {quote : Char}
    (isQuote : quote = '\'' ∨ quote = '"') (depth : Int) {text rest : Text}
    (parts : quotedRest quote text ++ rest = text) (goesOn : rest ≠ []) :
    (quotedRest quote text).foldl Nesting.advance ⟨some quote, depth⟩ =
      ⟨none, depth⟩ := by
  induction text using quotedInduction quote with
  | nil => exact absurd (List.append_eq_nil_iff.mp parts).2 goesOn
  | other character others differs ih =>
      rw [quotedRest_of_ne differs] at parts ⊢
      rw [List.foldl_cons, Nesting.advance_quoted differs,
        ih (List.cons.inj parts).2]
  | doubled others ih =>
      rw [quotedRest_doubled] at parts ⊢
      rw [List.foldl_cons, List.foldl_cons, Nesting.advance_closing,
        Nesting.advance_opening isQuote,
        ih (List.cons.inj (List.cons.inj parts).2).2]
  | closed others single =>
      rw [quotedRest_closed single, List.foldl_cons, Nesting.advance_closing]
      rfl

/-- A quoted stretch that is closed inside of a text does not go on. -/
theorem quotedRest_append_of_closed {quote : Char}
    (isQuote : quote = '\'' ∨ quote = '"') {depth : Int} {text rest : Text}
    (closed : (text.foldl Nesting.advance ⟨some quote, depth⟩).quote = none)
    (single : rest.head? ≠ some quote) :
    quotedRest quote (text ++ rest) = quotedRest quote text := by
  induction text using quotedInduction quote with
  | nil => cases closed
  | other character others differs ih =>
      rw [List.foldl_cons, Nesting.advance_quoted differs] at closed
      rw [List.cons_append, quotedRest_of_ne differs, quotedRest_of_ne differs,
        ih closed]
  | doubled others ih =>
      rw [List.foldl_cons, List.foldl_cons, Nesting.advance_closing,
        Nesting.advance_opening isQuote] at closed
      rw [List.cons_append, List.cons_append, quotedRest_doubled,
        quotedRest_doubled, ih closed]
  | closed others alone =>
      have stillSingle : (others ++ rest).head? ≠ some quote := by
        cases others with
        | nil => exact single
        | cons next behind => exact alone
      rw [List.cons_append, quotedRest_closed stillSingle,
        quotedRest_closed alone]

/-- A text without quotes leaves no quote open. -/
theorem quote_foldl_advance {nesting : Nesting}
    (outside : nesting.quote = none) {text : Text}
    (noQuotes : '\'' ∉ text ∧ '"' ∉ text) :
    (text.foldl Nesting.advance nesting).quote = none := by
  induction text generalizing nesting with
  | nil => exact outside
  | cons character rest ih =>
      simp only [List.mem_cons, not_or] at noQuotes
      apply ih _ ⟨noQuotes.1.2, noQuotes.2.2⟩
      have noQuote : ¬ (character = '\'' ∨ character = '"') := by
        rintro (rfl | rfl)
        · exact noQuotes.1.1 rfl
        · exact noQuotes.2.1 rfl
      rw [Nesting.advance, outside]
      simp only [if_neg noQuote]
      split
      · rfl
      · split
        · rfl
        · exact outside

end Snowform
