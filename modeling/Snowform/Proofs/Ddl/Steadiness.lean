import Snowform.Proofs.Ddl.Nesting
import Snowform.Proofs.Lexical.Marking

/-!
# Gaps outside quotes

The entries of a list are told by its commas and quotes, without regard to
what the scanner found.  In a list whose dollar bodies hold no quotes both see
a quote open at the same places, so that no comment stands between quotes as
the entries see them.
-/

namespace Snowform

open Text Lexical

/-- No gap stands where a quote is open. -/
def Steady : Nesting → List Mark → Prop
  | _, [] => True
  | nesting, .letter character :: rest =>
      Steady (nesting.advance character) rest
  | nesting, .gap _ _ :: rest => nesting.quote = none ∧ Steady nesting rest

/-- What is open behind marks. -/
def Nesting.walk (nesting : Nesting) (marks : List Mark) : Nesting :=
  marks.foldl (fun nesting mark => nesting.advance (shown mark)) nesting

namespace Steady

/-- Marks are steady if both their parts are, each from where it starts. -/
theorem append_iff {nesting : Nesting} {first second : List Mark} :
    Steady nesting (first ++ second) ↔
      Steady nesting first ∧ Steady (nesting.walk first) second := by
  induction first generalizing nesting with
  | nil => simp [Steady, Nesting.walk]
  | cons mark rest ih =>
      cases mark with
      | letter character => exact ih
      | gap narrow wide =>
          rw [List.cons_append, Steady, Steady, ih, and_assoc]
          refine and_congr_right fun outside => ?_
          have same : nesting.advance (shown (Mark.gap narrow wide)) = nesting :=
            Nesting.advance_of_isBlank outside (isBlank_shown_gap narrow wide)
          rw [Nesting.walk, Nesting.walk, List.foldl_cons, same]

/-- Letters are steady, and what follows them must be so behind them. -/
theorem letters_iff {nesting : Nesting} {text : Text} {rest : List Mark} :
    Steady nesting (text.map .letter ++ rest) ↔
      Steady (text.foldl Nesting.advance nesting) rest := by
  induction text generalizing nesting with
  | nil => rfl
  | cons character others ih => exact ih

/-- Blanks in front of marks make no difference. -/
theorem skipBlanks {nesting : Nesting} (outside : nesting.quote = none)
    {marks : List Mark} (steady : Steady nesting marks) :
    Steady nesting (skipBlanks marks) := by
  rw [Lexical.skipBlanks]
  induction marks with
  | nil => exact steady
  | cons mark rest ih =>
      rw [List.dropWhile_cons]
      split
      next blank =>
        apply ih
        cases mark with
        | letter character =>
            have same : nesting.advance character = nesting :=
              Nesting.advance_of_isBlank outside blank
            rw [Steady, same] at steady
            exact steady
        | gap narrow wide => exact steady.2
      next => exact steady

/-- The start of steady marks is steady. -/
theorem of_isPrefix {nesting : Nesting} {first marks : List Mark}
    (steady : Steady nesting marks) (starts : first <+: marks) :
    Steady nesting first := by
  obtain ⟨rest, rfl⟩ := starts
  exact (append_iff.mp steady).1

end Steady

/-! ## Lists -/

/-- A list with a dollar body that holds a quote. -/
def HidesQuote (list : Text) : Prop :=
  ∃ region ∈ lexemes list, region.kind = .dollarQuote ∧
    ('\'' ∈ region.text ∨ '"' ∈ region.text)

theorem Steady.behind_quoted {nesting : Nesting}
    (outside : nesting.quote = none) {quote : Char}
    (isQuote : quote = '\'' ∨ quote = '"') {text rest : Text}
    (parts : quotedRest quote text ++ rest = text) (goesOn : rest ≠ [])
    {behind : List Mark}
    (steady : ∀ {nesting : Nesting}, nesting.quote = none →
      Steady nesting behind) :
    Steady nesting ((quote :: quotedRest quote text).map .letter ++ behind) := by
  have closed : nesting = ⟨none, nesting.depth⟩ := by
    rw [← outside]
  rw [letters_iff, closed, List.foldl_cons, Nesting.advance_opening isQuote,
    foldl_advance_quotedRest isQuote nesting.depth parts goesOn]
  exact steady rfl

/-- A line of code in front of steady marks is steady. -/
theorem Steady.markLine {nesting : Nesting} (outside : nesting.quote = none)
    {behind : List Mark} (steady : Steady nesting behind) (text : Text) :
    Steady nesting (markLine text behind) := by
  rw [Lexical.markLine.eq_def]
  split
  next character rest =>
    split
    next feed =>
      rw [feed, Steady, Nesting.advance_of_isBlank outside (by decide)] at steady
      exact ⟨outside, steady⟩
    next => exact steady
  next => exact steady

/-- Regions that others follow have no gap between quotes. -/
theorem steady_marksOf {regions : List Region}
    (followed : AreFollowed regions)
    (visible : ∀ region ∈ regions, region.kind = .dollarQuote →
      '\'' ∉ region.text ∧ '"' ∉ region.text)
    {nesting : Nesting} (outside : nesting.quote = none) :
    Steady nesting (marksOf regions) := by
  induction followed generalizing nesting with
  | nil => trivial
  | @code character others noQuote _ ih =>
      rw [List.forall_mem_cons] at visible
      have noQuotes : '\'' ∉ [character] ∧ '"' ∉ [character] := by
        simp only [List.mem_singleton]
        exact ⟨noQuote.1.symm, noQuote.2.symm⟩
      exact ih visible.2 (quote_foldl_advance outside noQuotes)
  | @special mode inside rest others opens cut goesOn _ ih =>
      rw [List.forall_mem_cons] at visible
      have behind := fun {nesting : Nesting}
          (outside : nesting.quote = none) => ih visible.2 outside
      rw [marksOf_cons]
      cases mode with
      | code => exact opens.elim
      | lineComment => exact (behind outside).markLine outside _
      | blockComment => exact ⟨outside, behind outside⟩
      | singleQuote =>
          rw [markOnto_of_not_comment rfl]
          exact Steady.behind_quoted outside (Or.inl rfl) cut goesOn behind
      | doubleQuote =>
          rw [markOnto_of_not_comment rfl]
          exact Steady.behind_quoted outside (Or.inr rfl) cut goesOn behind
      | dollarQuote tag =>
          rw [markOnto_of_not_comment rfl, Steady.letters_iff]
          exact behind (quote_foldl_advance outside (visible.1 rfl))

end Snowform
