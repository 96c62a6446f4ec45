import Snowform.Proofs.Lexical.Masking
import Snowform.Proofs.Lexical.Sources

/-!
# Hidden literals stand behind delimiters

Whatever a literal hides stands behind its opening delimiter, which is shown.
So a part of a masked script that starts behind a keyword and shows anything
but blanks has a source that is not blank: either it shows code or it shows a
delimiter.
-/

namespace Snowform

open Text Lexical

namespace Lexical

/-- The characters that delimiters of literals end with. -/
def endsDelimiter (character : Char) : Bool :=
  character == '\'' || character == '"' || character == '$'

/--
Cells that follow code or, where `literal` says so, a delimiter with nothing
but hidden characters and line feeds behind it.
-/
def Enclosed (literal : Bool) : List Cell → Prop
  | [] => True
  | .plain character :: rest =>
      Enclosed (endsDelimiter character || literal && character == '\n') rest
  | .veiled fill _ :: rest =>
      (fill = ' ' ∨ fill = '_' ∧ literal = true) ∧ Enclosed literal rest
  | .padding fill :: rest =>
      (fill = ' ' ∨ fill = '_' ∧ literal = true) ∧ Enclosed literal rest

/-- What is enclosed behind code is so behind a literal. -/
theorem Enclosed.of_code {list : List Cell} (enclosed : Enclosed false list)
    (literal : Bool) : Enclosed literal list := by
  cases literal with
  | false => exact enclosed
  | true =>
      induction list with
      | nil => trivial
      | cons cell rest ih =>
          cases cell with
          | plain character =>
              rw [Enclosed] at enclosed ⊢
              cases ends : endsDelimiter character with
              | true =>
                  rw [ends] at enclosed
                  exact enclosed
              | false =>
                  rw [ends] at enclosed
                  cases feed : character == '\n' with
                  | true => exact ih enclosed
                  | false => exact enclosed
          | veiled fill character =>
              rw [Enclosed] at enclosed ⊢
              exact ⟨enclosed.1.imp_right fun both => ⟨both.1, rfl⟩,
                ih enclosed.2⟩
          | padding fill =>
              rw [Enclosed] at enclosed ⊢
              exact ⟨enclosed.1.imp_right fun both => ⟨both.1, rfl⟩,
                ih enclosed.2⟩

theorem Enclosed.map_plain_append {rest : List Cell}
    (enclosed : Enclosed false rest) (literal : Bool) (text : Text) :
    Enclosed literal (text.map .plain ++ rest) := by
  induction text generalizing literal with
  | nil => exact enclosed.of_code literal
  | cons character others ih => exact ih _

/-- A literal starts behind a text that ends like a delimiter. -/
theorem Enclosed.behind_delimiter {rest : List Cell}
    (enclosed : Enclosed true rest) {last : Char}
    (ends : endsDelimiter last = true) (literal : Bool) (text : Text) :
    Enclosed literal ((text ++ [last]).map .plain ++ rest) := by
  induction text generalizing literal with
  | nil =>
      rw [List.nil_append, List.map_singleton, List.singleton_append, Enclosed,
        ends, Bool.true_or]
      exact enclosed
  | cons character others ih => exact ih _

/-- Padding in front of what is enclosed keeps it enclosed. -/
theorem enclosed_replicate {fill : Char} {literal : Bool}
    (allowed : fill = ' ' ∨ fill = '_' ∧ literal = true) {rest : List Cell}
    (enclosed : Enclosed literal rest) (count : Nat) :
    Enclosed literal (List.replicate count (.padding fill) ++ rest) := by
  induction count with
  | zero => exact enclosed
  | succ count ih => exact ⟨allowed, ih⟩

/-- A veiled text in front of what is enclosed keeps it enclosed. -/
theorem Enclosed.veil_append {fill : Char} {literal : Bool}
    (allowed : fill = ' ' ∨ fill = '_' ∧ literal = true) {rest : List Cell}
    (enclosed : Enclosed false rest) (text : Text) :
    Enclosed literal (text.flatMap (veil fill) ++ rest) := by
  induction text with
  | nil => exact enclosed.of_code literal
  | cons character others ih =>
      rw [List.flatMap_cons, List.append_assoc, veil]
      split
      next feed =>
        have unchanged : (endsDelimiter character ||
            literal && character == '\n') = literal := by
          rw [feed]
          cases literal <;> rfl
        rw [List.singleton_append, Enclosed, unchanged]
        exact ih
      next => exact ⟨allowed, enclosed_replicate allowed ih _⟩

/-- The delimiter of a literal ends with a quote or a dollar sign. -/
theorem exists_opening_eq_concat {mode : Mode}
    (literal : mode.kind.isLiteral = true) :
    ∃ others last, mode.opening = others ++ [last] ∧
      endsDelimiter last = true := by
  cases mode with
  | singleQuote => exact ⟨[], '\'', rfl, rfl⟩
  | doubleQuote => exact ⟨[], '"', rfl, rfl⟩
  | dollarQuote tag => exact ⟨'$' :: tag, '$', rfl, rfl⟩
  | _ => cases literal

/-- The cells of a region keep what follows enclosed. -/
theorem enclosed_region {script : Text} {region : Region}
    (member : region ∈ lexemes script) {rest : List Cell}
    (enclosed : Enclosed false rest) :
    Enclosed false (region.cells ++ rest) := by
  rcases mode_of_mem_lexemesFrom member with
    code | ⟨mode, behind, following, opens, parts, equal⟩
  · have cells : region.cells = region.text.map .plain := by
      rw [Region.cells, code]
    rw [cells]
    exact enclosed.map_plain_append false region.text
  · rcases RegionKind.isLiteral_or_isComment opens.kind_ne_code with
      literal | comment
    · have delimited := Mode.delimiter_region opens literal
        (mode.remainder behind)
      have cells : region.cells = region.delimitedCells := by
        rw [equal]
        cases mode with
        | singleQuote => rfl
        | doubleQuote => rfl
        | dollarQuote tag => rfl
        | _ => cases literal
      obtain ⟨others, last, opening, ends⟩ := exists_opening_eq_concat literal
      rw [cells, equal, Region.delimitedCells, delimited]
      simp only [List.take_left, List.drop_left, List.append_assoc]
      rw [opening]
      apply Enclosed.behind_delimiter _ ends
      apply Enclosed.veil_append (Or.inr ⟨rfl, rfl⟩)
      exact enclosed.map_plain_append false _
    · have cells : region.cells = region.text.flatMap (veil ' ') := by
        rw [equal]
        cases mode with
        | lineComment => rfl
        | blockComment => rfl
        | _ => cases comment
      rw [cells]
      exact enclosed.veil_append (Or.inl rfl) region.text

/-- In a masked script underscores stand behind delimiters of literals only. -/
theorem enclosed_cells (script : Text) : Enclosed false (cells script) := by
  have whole : ∀ regions : List Region,
      (∀ region ∈ regions, region ∈ lexemes script) →
        Enclosed false (regions.flatMap Region.cells) := by
    intro regions members
    induction regions with
    | nil => trivial
    | cons region others ih =>
        rw [List.forall_mem_cons] at members
        rw [List.flatMap_cons]
        exact enclosed_region members.1 (ih members.2)
  exact whole (lexemes script) fun _ member => member

/-! ## Visible characters -/

theorem Enclosed.exists_of_append {literal : Bool} {before rest : List Cell}
    (enclosed : Enclosed literal (before ++ rest)) :
    ∃ still, Enclosed still rest := by
  induction before generalizing literal with
  | nil => exact ⟨literal, enclosed⟩
  | cons cell others ih =>
      cases cell with
      | plain character => exact ih enclosed
      | veiled fill character => exact ih enclosed.2
      | padding fill => exact ih enclosed.2

/-- The front of an enclosed list is enclosed. -/
theorem Enclosed.of_append {literal : Bool} {list rest : List Cell}
    (enclosed : Enclosed literal (list ++ rest)) : Enclosed literal list := by
  induction list generalizing literal with
  | nil => trivial
  | cons cell others ih =>
      cases cell with
      | plain character => exact ih enclosed
      | veiled fill character => exact ⟨enclosed.1, ih enclosed.2⟩
      | padding fill => exact ⟨enclosed.1, ih enclosed.2⟩

/-- No literal is open behind a character of a keyword. -/
theorem Enclosed.of_letter {literal : Bool} {cell : Cell} {rest : List Cell}
    (enclosed : Enclosed literal (cell :: rest))
    (loud : isFill (shown cell) = false)
    (quiet : endsDelimiter (shown cell) = false)
    (noFeed : shown cell ≠ '\n') : Enclosed false rest := by
  cases cell with
  | plain character =>
      have noQuote : endsDelimiter character = false := quiet
      have other : (character == '\n') = false := beq_false_of_ne noFeed
      rw [Enclosed, noQuote, other, Bool.and_false] at enclosed
      exact enclosed
  | veiled fill character =>
      have hidden : isFill fill = false := loud
      rcases enclosed.1 with rfl | ⟨rfl, -⟩ <;> cases hidden
  | padding fill =>
      have hidden : isFill fill = false := loud
      rcases enclosed.1 with rfl | ⟨rfl, -⟩ <;> cases hidden

/-- A letter of a keyword is no filling and no delimiter. -/
theorem not_delimiter_of_isKeywordLetter {letter character : Char}
    (alphabetic : letter.isAlpha = true)
    (same : isKeywordLetter letter character = true) :
    isFill character = false ∧ endsDelimiter character = false ∧
      character ≠ '\n' := by
  have other : ∀ mark : Char, mark.toUpper = mark → mark.toNat < 128 →
      mark.isAlpha = false → character ≠ mark := by
    rintro mark unchanged ascii notAlphabetic rfl
    rw [eq_of_isKeywordLetter unchanged ascii same, notAlphabetic] at alphabetic
    cases alphabetic
  have notBlank := other ' ' (by decide) (by decide) (by decide)
  have notLine := other '_' (by decide) (by decide) (by decide)
  have notQuote := other '\'' (by decide) (by decide) (by decide)
  have notDouble := other '"' (by decide) (by decide) (by decide)
  have notDollar := other '$' (by decide) (by decide) (by decide)
  have notFeed := other '\n' (by decide) (by decide) (by decide)
  simp [isFill, endsDelimiter, *]

/-- Behind a letter of a keyword there is code. -/
theorem Enclosed.behind_letter {literal : Bool} {cell : Cell}
    {rest : List Cell} (enclosed : Enclosed literal (cell :: rest))
    {letter : Char} (alphabetic : letter.isAlpha = true)
    (same : isKeywordLetter letter (shown cell) = true) :
    Enclosed false rest := by
  obtain ⟨loud, quiet, noFeed⟩ :=
    not_delimiter_of_isKeywordLetter alphabetic same
  exact enclosed.of_letter loud quiet noFeed

/-- No literal is open behind a keyword. -/
theorem Enclosed.behind_keyword {literal : Bool} {word : Text}
    {list rest : List Cell} (enclosed : Enclosed literal list)
    (alphabetic : word.all Char.isAlpha = true)
    (nonempty : word ≠ []) (found : keyword? word list = some rest) :
    Enclosed false rest := by
  induction word generalizing literal list with
  | nil => exact absurd rfl nonempty
  | cons letter letters ih =>
      rw [List.all_cons, Bool.and_eq_true] at alphabetic
      cases list with
      | nil => cases found
      | cons cell others =>
          rw [keyword?] at found
          split at found
          next same =>
            have behind := enclosed.behind_letter alphabetic.1 same
            cases letters with
            | nil =>
                cases found
                exact behind
            | cons next further =>
                exact ih behind alphabetic.2 (List.cons_ne_nil _ _) found
          next => cases found

theorem endsDelimiter_of_isBlank {character : Char}
    (blank : isBlank character = true) : endsDelimiter character = false := by
  rw [Bool.eq_false_iff]
  intro ends
  have cases : (character = '\'' ∨ character = '"') ∨ character = '$' := by
    simpa [endsDelimiter] using ends
  rcases cases with (rfl | rfl) | rfl <;> exact absurd blank (by decide)

theorem isBlank_blank : isBlank ' ' = true := by
  decide

/-- What shows anything but blanks shows code or a delimiter. -/
theorem Enclosed.exists_plain {list : List Cell}
    (enclosed : Enclosed false list)
    (visible : ∃ cell ∈ list, isBlank (shown cell) = false) :
    ∃ character, Cell.plain character ∈ list ∧ isBlank character = false := by
  induction list with
  | nil =>
      obtain ⟨cell, member, -⟩ := visible
      cases member
  | cons cell rest ih =>
      have later : Enclosed false rest → isBlank (shown cell) = true →
          ∃ character, Cell.plain character ∈ cell :: rest ∧
            isBlank character = false := by
        intro behind blank
        obtain ⟨other, member, seen⟩ := visible
        rcases List.mem_cons.mp member with rfl | member
        · rw [blank] at seen
          cases seen
        · obtain ⟨character, known, plain⟩ := ih behind ⟨other, member, seen⟩
          exact ⟨character, List.mem_cons_of_mem cell known, plain⟩
      cases cell with
      | plain character =>
          cases blank : isBlank character with
          | false => exact ⟨character, List.mem_cons_self, blank⟩
          | true =>
              have quiet := endsDelimiter_of_isBlank blank
              rw [Enclosed, quiet, Bool.false_and, Bool.or_false] at enclosed
              exact later enclosed blank
      | veiled fill character =>
          rcases enclosed.1 with rfl | ⟨-, impossible⟩
          · exact later enclosed.2 isBlank_blank
          · cases impossible
      | padding fill =>
          rcases enclosed.1 with rfl | ⟨-, impossible⟩
          · exact later enclosed.2 isBlank_blank
          · cases impossible

/-- A plain cell of a list stands in the text that the list comes from. -/
theorem mem_of_sourceFrom? {missing : Nat} {list : List Cell} {text : Text}
    (source : sourceFrom? missing list = some text) {character : Char}
    (member : Cell.plain character ∈ list) : character ∈ text := by
  fun_induction sourceFrom? missing list generalizing text
  case case1 => cases member
  case case2 other rest ih =>
    obtain ⟨others, known, rfl⟩ := Option.map_eq_some_iff.mp source
    rcases List.mem_cons.mp member with same | later
    · cases same
      exact List.mem_cons_self
    · exact List.mem_cons_of_mem other (ih known later)
  case case3 fill other rest ih =>
    obtain ⟨others, known, rfl⟩ := Option.map_eq_some_iff.mp source
    rcases List.mem_cons.mp member with same | later
    · cases same
    · exact List.mem_cons_of_mem other (ih known later)
  case case4 => cases source
  case case5 ih =>
    rcases List.mem_cons.mp member with same | later
    · cases same
    · exact ih source later
  case case6 => cases source

end Lexical

end Snowform
