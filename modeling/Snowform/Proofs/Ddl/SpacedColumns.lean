import Snowform.Ddl.Table
import Snowform.Proofs.Ddl.SpacedNames
import Mathlib.Data.List.TakeDrop

/-!
# Columns with gaps

An entry of a steady list says the same of a column whatever the width of its
gaps.  Its name holds no gap, because it ends at the first blank or stands
between quotes, and behind the name it is read word by word.
-/

namespace Snowform

open Text Lexical

/-! ## Quoted stretches -/

/-- At the first gap of steady marks no quote is open. -/
theorem Steady.exists_letters {nesting : Nesting} {marks : List Mark}
    (steady : Steady nesting marks) :
    ∃ (text : Text) (rest : List Mark), marks = text.map .letter ++ rest ∧
      StartsWithGap rest ∧
      (rest = [] ∨ (text.foldl Nesting.advance nesting).quote = none) := by
  obtain ⟨text, rest, rfl, starts⟩ := Text.exists_letters marks
  refine ⟨text, rest, rfl, starts, ?_⟩
  cases rest with
  | nil => exact Or.inl rfl
  | cons mark behind =>
      cases mark with
      | letter character => exact starts.elim
      | gap narrow wide => exact Or.inr (letters_iff.mp steady).1

/-- What is quoted in steady marks has no gap. -/
theorem Steady.exists_quotedRest {quote : Char}
    (isQuote : quote = '\'' ∨ quote = '"') {depth : Int} {marks : List Mark}
    (steady : Steady ⟨some quote, depth⟩ marks) :
    ∃ (quoted : Text) (rest : List Mark),
      marks = quoted.map .letter ++ rest ∧
      ∀ width, quotedRest quote (rendered width marks) = quoted := by
  obtain ⟨text, rest, rfl, starts, closed⟩ := steady.exists_letters
  obtain ⟨others, parts⟩ := quotedRest_prefix quote text
  refine ⟨quotedRest quote text, others.map .letter ++ rest, ?_, ?_⟩
  · rw [← List.append_assoc, ← List.map_append, parts]
  · intro width
    rw [rendered_append, rendered_letters]
    rcases closed with rfl | closed
    · rw [rendered_nil, List.append_nil]
    · refine quotedRest_append_of_closed isQuote closed ?_
      intro first
      have blank := starts.isBlank_head width quote first
      rcases isQuote with rfl | rfl <;> cases blank

/-! ## The first word -/

theorem isEven_not {test : Char → Bool} (even : IsEven test) :
    IsEven fun character => !test character :=
  fun character blank => congrArg (!·) (even character blank)

/-- What is taken from the start of marks up to a blank has no gap. -/
theorem exists_takeWhile (test : Char → Bool) (stops : test ' ' = false)
    (marks : List Mark) :
    ∃ text : Text, marks.takeWhile (shows test) = text.map .letter := by
  induction marks with
  | nil => exact ⟨[], rfl⟩
  | cons mark rest ih =>
      cases mark with
      | gap narrow wide =>
          exact ⟨[], List.takeWhile_cons_of_neg (by
            change ¬ test ' ' = true
            rw [stops]
            exact Bool.false_ne_true)⟩
      | letter character =>
          obtain ⟨text, same⟩ := ih
          rw [List.takeWhile_cons]
          split
          · exact ⟨character :: text, by rw [same]; rfl⟩
          · exact ⟨[], rfl⟩

theorem leadingIdentifier_of_head_ne {text : Text}
    (bare : (trimStart text).head? ≠ some '"') :
    leadingIdentifier text =
      (trimStart text).span fun character => !isBlank character := by
  rw [leadingIdentifier]
  split
  next rest same =>
    rw [same] at bare
    exact absurd rfl bare
  next => rfl

theorem leadingIdentifier_of_quote {text rest : Text}
    (quote : trimStart text = '"' :: rest) :
    leadingIdentifier text = ('"' :: quotedRest '"' rest,
      rest.drop (quotedRest '"' rest).length) := by
  rw [leadingIdentifier, quote]
  rfl

/-- No gap is part of the name that steady marks start with. -/
theorem Steady.exists_leadingIdentifier {marks : List Mark}
    (steady : Steady {} marks) :
    ∃ (name : Text) (rest : List Mark),
      ∀ width, leadingIdentifier (rendered width marks) =
        (name, rendered width rest) := by
  have start := steady.skipBlanks rfl
  have trimmed : ∀ width, trimStart (rendered width marks) =
      rendered width (Lexical.skipBlanks marks) :=
    fun width => skipBlanks_rendered width marks
  by_cases quote : (Lexical.skipBlanks marks).head? = some (.letter '"')
  · obtain ⟨others, parts⟩ := List.head?_eq_some_iff.mp quote
    rw [parts] at start trimmed
    obtain ⟨quoted, rest, rfl, known⟩ :=
      Steady.exists_quotedRest (Or.inr rfl) start
    refine ⟨'"' :: quoted, rest, ?_⟩
    intro width
    have quoteHere := trimmed width
    rw [rendered_letter] at quoteHere
    rw [leadingIdentifier_of_quote quoteHere, known, rendered_append,
      rendered_letters, List.drop_left]
  · have even := isEven_not isEven_isBlank
    obtain ⟨name, letters⟩ := exists_takeWhile
      (fun character => !isBlank character) rfl (Lexical.skipBlanks marks)
    refine ⟨name, (Lexical.skipBlanks marks).dropWhile
      (shows fun character => !isBlank character), ?_⟩
    intro width
    have bare : (trimStart (rendered width marks)).head? ≠ some '"' := by
      rw [trimmed]
      exact head?_rendered_ne width (by decide) quote
    rw [leadingIdentifier_of_head_ne bare, List.span_eq_takeWhile_dropWhile,
      trimmed, takeWhile_rendered even, dropWhile_rendered even, letters,
      rendered_letters]

/-! ## Columns -/

namespace Column

/-- The words of a steady entry do not depend on the width of its gaps. -/
theorem entryWords_rendered {marks : List Mark} (steady : Steady {} marks)
    (width other : Width) :
    entryWords (rendered width marks) = entryWords (rendered other marks) := by
  obtain ⟨name, rest, known⟩ :=
    (steady.trimMarks rfl).exists_leadingIdentifier
  rw [entryWords, entryWords, trim_rendered, trim_rendered, known, known]
  dsimp only
  rw [words_rendered width other]

theorem read?_rendered {marks : List Mark} (steady : Steady {} marks)
    (width other : Width) :
    read? (rendered width marks) = read? (rendered other marks) := by
  rw [read?, read?, entryWords_rendered steady width other]

end Column

end Snowform
