import Snowform.Proofs.Hcl.Heredoc
import Mathlib.Data.List.Forall2
import Mathlib.Order.Bounds.Basic

/-!
# Lines of a body in a heredoc

Every line of a body is a line of its heredoc.  A line without text becomes
empty; any other is moved to the left, by as much as all of them can be, and
loses nothing but blanks at its ends.

How far the lines can be moved is counted in bytes, and blanks may have
several.  A line that cannot be cut at that place loses all its indentation,
so what is left of a line never starts inside its text.  Where indentation is
in ASCII blanks, bytes are characters and all lines keep their distances.
-/

namespace Snowform.Hcl

open Text

/-! ## Ends of lines -/

theorem visible_of_not_isBlankLine {line : Text}
    (visible : isBlankLine line = false) :
    ∃ character ∈ line, isBlank character = false := by
  obtain ⟨character, member, notBlank⟩ := List.all_eq_false.mp visible
  exact ⟨character, member, Bool.eq_false_iff.mpr notBlank⟩

/-- The text of a line starts with a visible character. -/
theorem exists_trim_eq_cons {line : Text} (visible : isBlankLine line = false) :
    ∃ first others, trim line = first :: others ∧ isBlank first = false := by
  obtain ⟨character, member, notBlank⟩ := visible_of_not_isBlankLine visible
  obtain ⟨first, others, parts⟩ :=
    List.exists_cons_of_ne_nil (trim_ne_nil member notBlank)
  refine ⟨first, others, parts, ?_⟩
  have none := leadingBlanks_trim line
  rw [parts, leadingBlanks] at none
  by_contra blank
  rw [List.takeWhile_cons_of_pos (Bool.not_eq_false _ ▸ blank)] at none
  cases none

/-! ## Single lines -/

/-- How a line of a body is written in a heredoc. -/
inductive IsWritten : Text → Text → Prop where
  | blank {line : Text} (blank : isBlankLine line = true) : IsWritten line []
  | moved {before text after : Text}
      (visible : isBlankLine (before ++ (text ++ after)) = false)
      (blanksBefore : ∀ character ∈ before, isBlank character = true)
      (blanksAfter : ∀ character ∈ after, isBlank character = true)
      (ends : ∀ last ∈ text.getLast?, isBlank last = false) :
      IsWritten (before ++ (text ++ after)) (("    " : Text) ++ text)

theorem isWritten_writeLine {lines : List Text} {line : Text}
    (member : line ∈ lines) :
    IsWritten line (writeLine (commonIndentation lines) line) := by
  rw [writeLine]
  cases visible : isBlankLine line with
  | true => exact .blank visible
  | false =>
      obtain ⟨before, blanksBefore, parts⟩ :=
        exists_cut_indentation (commonIndentation_le member visible)
      generalize (dropBytes? (commonIndentation lines) line).getD
        (trimStart line) = rest at parts
      obtain ⟨after, blanksAfter, ending⟩ := exists_trimEnd rest
      have whole : line = before ++ (trimEnd rest ++ after) := by
        rw [← ending, parts]
      rw [if_neg Bool.false_ne_true]
      have written := IsWritten.moved (whole ▸ visible) blanksBefore blanksAfter
        (visible_last_trimEnd rest)
      rwa [← whole] at written

/-! ## The line that is indented least -/

/-- The sizes of the indentations of the lines with text. -/
def indentations (size : Text → Nat) (lines : List Text) : Set Nat :=
  {number | ∃ line ∈ lines, isBlankLine line = false ∧ size line = number}

theorem isLeast_commonIndentation {lines : List Text}
    (some : ∃ line ∈ lines, isBlankLine line = false) :
    IsLeast (indentations indentation lines) (commonIndentation lines) := by
  constructor
  · rw [commonIndentation]
    cases least : ((lines.filter fun line => !isBlankLine line).map
        indentation).min? with
    | none =>
        obtain ⟨line, member, visible⟩ := some
        have none := List.map_eq_nil_iff.mp (List.min?_eq_none_iff.mp least)
        have kept := List.filter_eq_nil_iff.mp none line member
        rw [visible] at kept
        exact absurd rfl kept
    | some size =>
        obtain ⟨line, member, same⟩ := List.mem_map.mp (List.min?_mem least)
        obtain ⟨inside, visible⟩ := List.mem_filter.mp member
        exact ⟨line, inside, by simpa using visible, same⟩
  · rintro size ⟨line, member, visible, rfl⟩
    exact commonIndentation_le member visible

/-- A line that is cut behind its indentation. -/
theorem writeLine_indentation {line : Text}
    (visible : isBlankLine line = false) :
    writeLine (indentation line) line = ("    " : Text) ++ trim line := by
  have cut : dropBytes? (indentation line) line = some (trimStart line) := by
    have parts := dropBytes?_byteSize (line.takeWhile isBlank) (trimStart line)
    rwa [trimStart, List.takeWhile_append_dropWhile] at parts
  rw [writeLine, visible, cut]
  rfl

/-- The line that is indented least starts with its text. -/
theorem exists_writtenLine_starts {lines : List Text}
    (some : ∃ line ∈ lines, isBlankLine line = false) :
    ∃ line ∈ lines, ∃ first others,
      writeLine (commonIndentation lines) line =
        ("    " : Text) ++ first :: others ∧ isBlank first = false := by
  obtain ⟨line, member, visible, least⟩ := (isLeast_commonIndentation some).1
  obtain ⟨first, others, parts, notBlank⟩ := exists_trim_eq_cons visible
  refine ⟨line, member, first, others, ?_, notBlank⟩
  rw [← least, writeLine_indentation visible, parts]

/-! ## Indentation in ASCII blanks -/

/-- Whether the lines with text are indented in ASCII blanks. -/
def IsAsciiIndented (lines : List Text) : Prop :=
  ∀ line ∈ lines, isBlankLine line = false →
    ∀ character ∈ leadingBlanks line, character.toNat < 128

theorem byteSize_of_ascii {text : Text}
    (ascii : ∀ character ∈ text, character.toNat < 128) :
    byteSize text = text.length := by
  induction text with
  | nil => rfl
  | cons character rest ih =>
      rw [List.forall_mem_cons] at ascii
      have single : character.utf8Size = 1 :=
        Char.utf8Size_eq_one_iff.mpr
          (UInt32.le_iff_toNat_le.mpr (Nat.le_of_lt_succ ascii.1))
      rw [byteSize_cons, single, ih ascii.2, List.length_cons, Nat.add_comm]

theorem commonIndentation_of_ascii {lines : List Text}
    (ascii : IsAsciiIndented lines) {shared : Nat}
    (least : IsLeast (indentations (fun line => (leadingBlanks line).length)
      lines) shared) :
    commonIndentation lines = shared := by
  have same : indentations indentation lines =
      indentations (fun line => (leadingBlanks line).length) lines := by
    ext number
    refine exists_congr fun line => and_congr_right fun member =>
      and_congr_right fun visible => ?_
    rw [indentation, ← leadingBlanks, byteSize_of_ascii (ascii line member visible)]
  obtain ⟨line, member, visible, -⟩ := least.1
  exact (isLeast_commonIndentation ⟨line, member, visible⟩).unique (same ▸ least)

/-- A line that is cut inside of its indentation keeps the rest of it. -/
theorem writeLine_of_ascii {line : Text} (visible : isBlankLine line = false)
    (ascii : ∀ character ∈ leadingBlanks line, character.toNat < 128)
    {shared : Nat} (less : shared ≤ (leadingBlanks line).length) :
    writeLine shared line =
      ("    " : Text) ++ ((leadingBlanks line).drop shared ++ trim line) := by
  obtain ⟨first, others, parts, notBlank⟩ := exists_trim_eq_cons visible
  have size : byteSize ((leadingBlanks line).take shared) = shared := by
    rw [byteSize_of_ascii fun character member =>
      ascii character (List.mem_of_mem_take member), List.length_take,
      Nat.min_eq_left less]
  have cut : dropBytes? shared line =
      some ((leadingBlanks line).drop shared ++ trimStart line) := by
    have dropped := dropBytes?_byteSize ((leadingBlanks line).take shared)
      ((leadingBlanks line).drop shared ++ trimStart line)
    rwa [size, ← List.append_assoc, List.take_append_drop, leadingBlanks,
      trimStart, List.takeWhile_append_dropWhile] at dropped
  have trimmed : trimEnd ((leadingBlanks line).drop shared ++ trimStart line) =
      (leadingBlanks line).drop shared ++ trim line := by
    rw [trimEnd, dropEndWhile_append, if_neg]
    · rfl
    · change trim line ≠ []
      rw [parts]
      exact List.cons_ne_nil first others
  rw [writeLine, visible, cut, Option.getD_some, trimmed]
  rfl

/-! ## Whole bodies -/

/-- How the lines of a body, all of them in order, stand in its heredoc. -/
structure AreWritten (lines written : List Text) : Prop where
  /-- Line by line nothing is lost but blanks at the ends. -/
  each : List.Forall₂ IsWritten lines written
  /-- Unless there is no text at all, one line is moved up to its text. -/
  starts : (∃ line ∈ lines, isBlankLine line = false) →
    ∃ line ∈ written, ∃ first others,
      line = ("    " : Text) ++ first :: others ∧ isBlank first = false
  /-- Indentation in ASCII blanks gets shorter by the least one of all. -/
  distances : IsAsciiIndented lines → ∀ shared,
    IsLeast (indentations (fun line => (leadingBlanks line).length) lines)
        shared →
      List.Forall₂ (fun line changed => isBlankLine line = false →
        changed = ("    " : Text) ++
          ((leadingBlanks line).drop shared ++ trim line)) lines written

theorem areWritten_writtenLines (body : Text) :
    AreWritten (bodyLines body) (writtenLines body) := by
  constructor
  case each =>
    rw [writtenLines, List.forall₂_map_right_iff, List.forall₂_same]
    exact fun line => isWritten_writeLine
  case starts =>
    intro some
    obtain ⟨line, member, starts⟩ := exists_writtenLine_starts some
    exact ⟨_, List.mem_map_of_mem member, starts⟩
  case distances =>
    intro ascii shared least
    rw [writtenLines, List.forall₂_map_right_iff, List.forall₂_same,
      commonIndentation_of_ascii ascii least]
    intro line member visible
    exact writeLine_of_ascii visible (ascii line member visible)
      (least.2 ⟨line, member, visible, rfl⟩)

/--
A heredoc is a line with its marker, one line for every line of the body and
the marker again.  The body has line feeds for its line ends and no empty lines
around it.  Lines without text are empty; the others are moved to the left and
keep their texts and, where they are indented in ASCII blanks, their distances.
-/
theorem heredoc_keeps_lines (body : Text) :
    let kept := lines (trimLineFeeds (replaceAll "\r\n" "\n" body))
    ∃ written,
      heredoc body = ("<<-" : Text) ++ marker kept ++
        '\n' :: (ofLines written ++ (("  " : Text) ++ marker kept)) ∧
      (∀ line ∈ marker kept :: written, '\n' ∉ line) ∧
      written.length = kept.length ∧
      AreWritten kept written := by
  intro kept
  refine ⟨writtenLines body, ?_, ?_, ?_, areWritten_writtenLines body⟩
  · rw [heredoc_eq, ofLines_cons, heredocStart, heredocEnd, List.append_assoc,
      List.cons_append]
    rfl
  · exact List.forall_mem_cons.mpr
      ⟨not_feed_mem_marker _, fun line => not_feed_of_mem_writtenLines⟩
  · exact List.length_map _

end Snowform.Hcl
