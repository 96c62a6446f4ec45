import Snowform.Hcl.Heredoc
import Snowform.Proofs.Text.Bytes
import Snowform.Proofs.Text.Lines
import Snowform.Proofs.Text.Trimming

/-!
# Where heredocs end

A heredoc is read up to the first line that holds its marker alone, whatever
blanks stand around it.  The lines of a body are indented anew, which changes
only the blanks around them, so a line of a body ends the heredoc early
exactly where it is the marker but for its blanks.

The marker is chosen among two.  A body with both of them on lines of their
own has a line that is the marker, and no other body has one.
-/

namespace Snowform.Hcl

open Text

/-! ## Indentation -/

/-- What is left of a line without its indentation is the rest of it. -/
theorem indentation_add_trimStart (line : Text) :
    indentation line + byteSize (trimStart line) = byteSize line := by
  rw [indentation, trimStart, ← byteSize_append,
    List.takeWhile_append_dropWhile]

/-- A line with text is indented at least as far as all lines together. -/
theorem commonIndentation_le {lines : List Text} {line : Text}
    (member : line ∈ lines) (visible : isBlankLine line = false) :
    commonIndentation lines ≤ indentation line := by
  have inside : indentation line ∈
      (lines.filter fun line => !isBlankLine line).map indentation :=
    List.mem_map_of_mem (List.mem_filter.mpr ⟨member, by rw [visible]; rfl⟩)
  exact List.min?_getD_le_of_mem inside

/-- What a line loses at its start when some indentation is cut off. -/
theorem exists_cut_indentation {shared : Nat} {line : Text}
    (less : shared ≤ indentation line) :
    ∃ before, (∀ character ∈ before, isBlank character = true) ∧
      line = before ++ (dropBytes? shared line).getD (trimStart line) := by
  have blanks : ∀ character ∈ line.takeWhile isBlank,
      isBlank character = true := fun character => List.mem_takeWhile_imp
  cases dropped : dropBytes? shared line with
  | none =>
      exact ⟨line.takeWhile isBlank, blanks,
        List.takeWhile_append_dropWhile.symm⟩
  | some rest =>
      obtain ⟨⟨before, after⟩, cut, rfl⟩ := Option.map_eq_some_iff.mp dropped
      obtain ⟨parts, size⟩ := of_cutAt? cut
      have starts : before <+: line := ⟨after, parts.symm⟩
      have inside : before <+: line.takeWhile isBlank := by
        rcases List.prefix_or_prefix_of_prefix starts
          (List.takeWhile_prefix isBlank) with shorter | ⟨others, longer⟩
        · exact shorter
        -- Characters behind the indentation would need bytes of their own.
        · have empty : others = [] := by
            by_contra nonempty
            have positive := byteSize_pos nonempty
            rw [← longer, coveredSize_append] at size
            rw [indentation, byteSize] at less
            rw [byteSize] at positive
            omega
          rw [empty, List.append_nil] at longer
          exact longer ▸ List.prefix_rfl
      exact ⟨before, fun character member =>
        blanks character (inside.subset member), parts⟩

/-- A line is indented anew, with the same text between its blanks. -/
theorem trim_writeLine {lines : List Text} {line : Text}
    (member : line ∈ lines) :
    trim (writeLine (commonIndentation lines) line) = trim line := by
  rw [writeLine]
  cases visible : isBlankLine line with
  | true =>
      have blank : ∀ character ∈ line, isBlank character = true :=
        List.all_eq_true.mp visible
      have same := trim_append_left blank []
      rw [List.append_nil] at same
      exact same.symm
  | false =>
      obtain ⟨before, blanks, parts⟩ :=
        exists_cut_indentation (commonIndentation_le member visible)
      generalize (dropBytes? (commonIndentation lines) line).getD
        (trimStart line) = rest at parts
      have margin : ∀ character ∈ ("    " : Text), isBlank character = true :=
        List.all_eq_true.mp (by decide)
      obtain ⟨after, trailing, ending⟩ := exists_trimEnd rest
      calc
        trim (("    " : Text) ++ trimEnd rest) = trim (trimEnd rest) :=
          trim_append_left margin _
        _ = trim (before ++ (trimEnd rest ++ after)) :=
          (trim_append_append blanks trailing _).symm
        _ = trim line := by rw [← ending, ← parts]

/-! ## Lines without line feeds -/

/-- A line holds no line feed. -/
theorem not_feed_of_mem_lines {text line : Text} (member : line ∈ lines text) :
    '\n' ∉ line := by
  have whole : ∀ piece ∈ piecesAt (· == '\n') text, '\n' ∉ piece := by
    intro piece inside feed
    have noFeed := separates_of_mem_piecesAt inside '\n' feed
    cases noFeed
  rw [lines] at member
  split at member
  next => cases member
  next last earlier parts =>
    have pieces : ∀ piece ∈ last :: earlier, '\n' ∉ piece := by
      intro piece inside
      rw [← parts, List.mem_reverse] at inside
      exact whole piece inside
    rw [List.forall_mem_cons] at pieces
    rcases List.mem_append.mp member with ended | final
    · obtain ⟨piece, inside, rfl⟩ := List.mem_map.mp ended
      have noFeed := pieces.2 piece (List.mem_reverse.mp inside)
      rw [dropEnd?]
      split
      next => exact fun feed => noFeed (List.mem_of_mem_take feed)
      next => exact noFeed
    · split at final
      next => cases final
      next =>
        rw [List.mem_singleton.mp final]
        exact pieces.1

theorem not_feed_of_mem_writeLine {shared : Nat} {line : Text}
    (whole : '\n' ∉ line) : '\n' ∉ writeLine shared line := by
  rw [writeLine]
  split
  next => exact List.not_mem_nil
  next =>
    have suffix : (dropBytes? shared line).getD (trimStart line) <:+ line := by
      cases dropped : dropBytes? shared line with
      | none => exact List.dropWhile_suffix isBlank
      | some rest =>
          obtain ⟨⟨before, after⟩, cut, rfl⟩ :=
            Option.map_eq_some_iff.mp dropped
          exact ⟨before, (of_cutAt? cut).1.symm⟩
    intro feed
    rcases List.mem_append.mp feed with margin | inside
    · exact absurd margin (by decide)
    · rw [trimEnd, dropEndWhile_eq_rdropWhile] at inside
      exact whole (suffix.subset ((List.rdropWhile_prefix _ _).subset inside))

/-! ## Lines of heredocs -/

/-- The lines of a body as they are written. -/
def writtenLines (body : Text) : List Text :=
  (bodyLines body).map (writeLine (commonIndentation (bodyLines body)))

/-- A written line is one line. -/
theorem not_feed_of_mem_writtenLines {body line : Text}
    (member : line ∈ writtenLines body) : '\n' ∉ line := by
  obtain ⟨source, inside, rfl⟩ := List.mem_map.mp member
  exact not_feed_of_mem_writeLine (not_feed_of_mem_lines inside)

/-- The line that a heredoc starts with. -/
def heredocStart (body : Text) : Text :=
  ("<<-" : Text) ++ marker (bodyLines body)

/-- The line that a heredoc ends with. -/
def heredocEnd (body : Text) : Text :=
  ("  " : Text) ++ marker (bodyLines body)

/-- A heredoc is a first line, the written lines and a last line. -/
theorem heredoc_eq (body : Text) :
    heredoc body =
      ofLines (heredocStart body :: writtenLines body) ++ heredocEnd body := by
  simp [heredoc, heredocStart, heredocEnd, writtenLines, ofLines,
    List.flatMap_map]

theorem marker_eq (lines : List Text) :
    marker lines = "EOT".toList ∨ marker lines = "EOSQL".toList := by
  rw [marker]
  split
  next => exact .inr rfl
  next => exact .inl rfl

theorem not_feed_mem_marker (lines : List Text) : '\n' ∉ marker lines := by
  rcases marker_eq lines with same | same <;> rw [same] <;> decide

/-! ## Reading heredocs -/

/-- Lines up to the first one that holds a marker alone, and those behind. -/
def upToMarker? (marker : Text) :
    List Text → Option (List Text × List Text)
  | [] => none
  | line :: others =>
      if trim line = marker then
        some ([], others)
      else
        (upToMarker? marker others).map fun parts =>
          (line :: parts.1, parts.2)

/--
The lines of the heredoc that a text starts with, and the lines behind it.
The first line names the marker.
-/
def readHeredoc? (text : Text) : Option (List Text × List Text) :=
  match piecesAt (· == '\n') text with
  | [] => none
  | first :: others =>
      dropStart? "<<-" first >>= fun marker => upToMarker? marker others

/-- Lines are read up to a marker if and only if none of them is the marker. -/
theorem upToMarker?_append {marker last : Text} (ends : trim last = marker)
    {lines : List Text} (others : List Text) :
    upToMarker? marker (lines ++ last :: others) = some (lines, others) ↔
      ∀ line ∈ lines, trim line ≠ marker := by
  induction lines with
  | nil => simp [upToMarker?, ends]
  | cons line rest ih =>
      rw [List.cons_append, upToMarker?]
      by_cases here : trim line = marker
      · simp [here]
      · rw [if_neg here, List.forall_mem_cons]
        simp only [Option.map_eq_some_iff, Prod.mk.injEq, List.cons.injEq,
          true_and]
        constructor
        · rintro ⟨⟨inside, behind⟩, found, rfl, rfl⟩
          exact ⟨here, ih.mp found⟩
        · rintro ⟨-, apart⟩
          exact ⟨(rest, others), ih.mpr apart, rfl, rfl⟩

/-- A heredoc is read back if and only if no written line is its marker. -/
theorem readHeredoc?_heredoc (body rest : Text) :
    readHeredoc? (heredoc body ++ '\n' :: rest) =
        some (writtenLines body, piecesAt (· == '\n') rest) ↔
      ∀ line ∈ writtenLines body, trim line ≠ marker (bodyLines body) := by
  have noFeed := not_feed_mem_marker (bodyLines body)
  have ends : trim (heredocEnd body) = marker (bodyLines body) := by
    rcases marker_eq (bodyLines body) with same | same <;>
      rw [heredocEnd, same] <;> decide
  have whole : ∀ line ∈
      heredocStart body :: writtenLines body ++ [heredocEnd body],
      '\n' ∉ line := by
    simp only [List.cons_append, List.forall_mem_cons,
      List.forall_mem_append]
    refine ⟨?_, fun line => not_feed_of_mem_writtenLines, ?_⟩
    · simpa [heredocStart] using noFeed
    · simpa [heredocEnd] using noFeed
  have text : heredoc body ++ '\n' :: rest =
      ofLines (heredocStart body :: writtenLines body ++ [heredocEnd body]) ++
        rest := by
    rw [heredoc_eq, ofLines_append, ofLines_cons (heredocEnd body)]
    simp
  have start : dropStart? "<<-" (heredocStart body) =
      some (marker (bodyLines body)) := by
    simp [dropStart?, heredocStart]
  rw [readHeredoc?, text, piecesAt_ofLines_append whole]
  simp only [List.cons_append, List.append_assoc, start]
  exact upToMarker?_append ends _

/-! ## Bodies with both markers -/

/-- Whether both markers stand on lines of a body, but for blanks. -/
def HoldsBothMarkers (body : Text) : Prop :=
  ∀ marker ∈ (["EOT", "EOSQL"] : List Text),
    ∃ line ∈ bodyLines body, trim line = marker

/--
The marker stands on a written line if and only if both markers stand in the
body.
-/
theorem exists_marker_line_iff (body : Text) :
    (∃ line ∈ writtenLines body, trim line = marker (bodyLines body)) ↔
      HoldsBothMarkers body := by
  have written : (∃ line ∈ writtenLines body,
      trim line = marker (bodyLines body)) ↔
      ∃ line ∈ bodyLines body, trim line = marker (bodyLines body) := by
    constructor
    · rintro ⟨written, inside, same⟩
      obtain ⟨line, member, rfl⟩ := List.mem_map.mp inside
      exact ⟨line, member, (trim_writeLine member).symm.trans same⟩
    · rintro ⟨line, member, same⟩
      exact ⟨_, List.mem_map_of_mem member,
        (trim_writeLine member).trans same⟩
  rw [written, HoldsBothMarkers, List.forall_mem_cons,
    List.forall_mem_singleton, marker]
  simp only [List.any_eq_true, beq_iff_eq]
  split
  next usual => exact ⟨fun other => ⟨usual, other⟩, And.right⟩
  next unusual =>
    exact ⟨fun usual => absurd usual unusual,
      fun both => absurd both.1 unusual⟩

end Snowform.Hcl
