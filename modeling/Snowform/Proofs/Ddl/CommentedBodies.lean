import Snowform.Proofs.Ddl.ProcedureBodies
import Snowform.Proofs.Lexical.Gaps

/-!
# Procedures with comments in front of their bodies

Blanks between the word `AS` and a body are no part of the body.  A comment
that stands there is kept: the end of a body is found in the masked script, its
start is trimmed as it is written.  The body then starts with the comment, and
the markers behind the comment are kept as well.
-/

namespace Snowform

open Text Lexical

/-- A gap is blank, or it starts with a comment when it is trimmed. -/
theorem Lexical.IsGap.blank_or_comment {gap : Text} (isGap : IsGap gap) :
    (∀ character ∈ gap, isBlank character = true) ∨
      ∃ first others, trimStart gap = first :: others ∧
        (first = '-' ∨ first = '/') := by
  induction isGap with
  | nil => exact .inl (List.forall_mem_nil _)
  | @blank first rest blank _ ih =>
      rcases ih with blanks | ⟨next, others, trimmed, comment⟩
      · exact .inl (List.forall_mem_cons.mpr ⟨blank, blanks⟩)
      · refine .inr ⟨next, others, ?_, comment⟩
        rw [trimStart, List.dropWhile_cons_of_pos blank]
        exact trimmed
  | line => exact .inr ⟨'-', _, rfl, .inl rfl⟩
  | block => exact .inr ⟨'/', _, rfl, .inr rfl⟩

namespace Procedure

/-- The delimiters of a body are kept behind the start of a comment. -/
theorem stripDelimiters_of_comment {first : Char} {others : Text}
    (comment : first = '-' ∨ first = '/')
    (ends : (first :: others).getLast? = some '$') :
    stripDelimiters (first :: others) = first :: others := by
  have noMarker : dollarMarker? (first :: others) = none := by
    rcases comment with rfl | rfl <;> rfl
  have open_ : ¬ (first :: others).getLast? = some first := by
    rw [ends]
    rcases comment with rfl | rfl <;> decide
  unfold stripDelimiters
  rw [noMarker]
  cases others with
  | nil => rfl
  | cons second rest =>
      dsimp only
      rw [if_neg open_]
      rfl

/-- What is read as the body behind a gap. -/
def bodyBehind (gap body : Text) : Text :=
  if gap.all isBlank then trim body else trimStart gap ++ dollarLiteral [] body

theorem bodyBehind_eq_trim_iff {gap body : Text} :
    bodyBehind gap body = trim body ↔ gap.all isBlank = true := by
  rw [bodyBehind]
  split
  next blank => exact iff_of_true rfl blank
  next written =>
    refine iff_of_false (fun same => ?_) written
    -- The markers are longer than what trimming leaves of the body.
    have whole := congrArg List.length (leading_trim_trailing body)
    have sizes := congrArg List.length same
    rw [dollarLiteral, Mode.opening] at sizes
    simp only [List.length_append, List.length_cons] at whole sizes
    omega

section

variable {gap body : Text} (isGap : IsGap gap)
  (free : ¬ (Mode.dollarQuote []).opening <:+: body)

include isGap free

theorem follows_gap (starts : startsWith isBlank gap = true) :
    Follows (gap ++ dollarLiteral [] body) := by
  obtain ⟨hidden, blank, parts⟩ := isGap.exists_cells
  have delimits := delimits_dollarLiteral (List.forall_mem_nil _) free
  refine ⟨?_, ?_, ?_⟩
  · cases gap with
    | nil => cases starts
    | cons first others => exact starts
  · rw [parts]
    intro cell member
    rcases List.mem_append.mp member with before | inside
    · have blank := blank cell before
      constructor <;>
        · intro same
          rw [same] at blank
          cases blank
    · exact delimits.quiet cell inside
  · obtain ⟨last, isLast, visible⟩ := delimits.ends
    refine ⟨last, ?_, visible⟩
    rw [parts, List.getLast?_append, Option.mem_def.mp isLast]
    rfl

theorem isWordless_gap : IsWordless (cells (gap ++ dollarLiteral [] body)) := by
  obtain ⟨hidden, blank, parts⟩ := isGap.exists_cells
  have quiet : ∀ cell ∈ hidden, isKeywordLetter 'A' (shown cell) = false :=
    fun cell member => isKeywordLetter_of_isBlank (by decide) (blank cell member)
  intro mode behind
  rw [parts, findBody?_pass quiet]
  exact isWordless_dollarLiteral (List.forall_mem_nil _) free (by decide) _ _

theorem stripDelimiters_gap :
    stripDelimiters (trim (gap ++ dollarLiteral [] body)) =
      bodyBehind gap body := by
  have delimits := delimits_dollarLiteral (List.forall_mem_nil _) free
  rcases isGap.blank_or_comment with blank | ⟨first, others, start, comment⟩
  · rw [trim_append_left blank, delimits.inside, bodyBehind,
      if_pos (List.all_eq_true.mpr blank)]
  · have visible : isBlank first = false := by
      rcases comment with rfl | rfl <;> decide
    have parts : gap = gap.takeWhile isBlank ++ first :: others := by
      rw [← start]
      exact List.takeWhile_append_dropWhile.symm
    have blanks : ∀ character ∈ gap.takeWhile isBlank,
        isBlank character = true :=
      fun character member => List.mem_takeWhile_imp member
    have ends : (first :: (others ++ dollarLiteral [] body)).getLast? =
        some '$' := by
      rw [← List.cons_append, List.getLast?_append, getLast?_dollarLiteral]
      rfl
    have written : ¬ gap.all isBlank = true := by
      rw [List.all_eq_true, parts]
      intro blank
      rw [blank first (by simp)] at visible
      cases visible
    have dollar : isBlank '$' = false := by decide
    rw [bodyBehind, if_neg written, start, parts, List.append_assoc,
      trim_append_left blanks, List.cons_append,
      trim_of_ends rfl ends ⟨visible, dollar⟩,
      stripDelimiters_of_comment comment ends]

end

/--
Blanks in front of a body make no difference.  A comment there is read as the
start of the body, which then keeps its markers.
-/
theorem read_gap_dollarLiteral {header gap body : Text}
    (isHeader : IsHeader header) (isGap : IsGap gap)
    (starts : startsWith isBlank gap = true)
    (free : ¬ (Mode.dollarQuote []).opening <:+: body) :
    read (header ++ ("AS" ++ (gap ++ dollarLiteral [] body))) =
        (read (header ++ ("AS " ++ dollarLiteral [] body))).map
          (fun procedure => { procedure with body := bodyBehind gap body }) ∧
      ∀ procedure, read (header ++ ("AS " ++ dollarLiteral [] body)) =
        .ok procedure →
          (read (header ++ ("AS" ++ (gap ++ dollarLiteral [] body))) =
            .ok procedure ↔ gap.all isBlank = true) := by
  have delimits := delimits_dollarLiteral (List.forall_mem_nil _) free
  have wordless := isWordless_dollarLiteral (List.forall_mem_nil _) free
    (by decide)
  have alike := statements_read_alike isHeader (follows_gap isGap free starts)
    delimits.follows fun _ _ _ _ _ =>
      ⟨isWordless_gap isGap free, wordless.cons_blank⟩
  have blank : ("AS " : Text) ++ dollarLiteral [] body =
    "AS" ++ ' ' :: dollarLiteral [] body := rfl
  rw [blank]
  revert alike
  generalize read (header ++ ("AS" ++ (gap ++ dollarLiteral [] body))) = first
  generalize read (header ++ ("AS" ++ ' ' :: dollarLiteral [] body)) = second
  rintro (⟨failure⟩ | ⟨rfl, same⟩)
  · exact ⟨rfl, nofun⟩
  · rw [trim_cons_blank, delimits.inside] at same
    rw [stripDelimiters_gap isGap free]
    refine ⟨rfl, ?_⟩
    rintro procedure ⟨⟩
    rw [← bodyBehind_eq_trim_iff, ← same, Except.ok.injEq]
    constructor
    · exact congrArg Procedure.body
    · intro unchanged
      rw [unchanged]

/-- A gap with a comment of either kind, each with a marker in it. -/
def commentedGap : Text := " /* $$ */ -- it's $$\n"

theorem isGap_commentedGap : IsGap commentedGap := by
  have blank : isBlank ' ' = true := by decide
  have line : IsGap (" -- it's $$\n" : Text) :=
    .blank blank (@IsGap.line " it's $$" [] (by decide) .nil)
  exact .blank blank (@IsGap.block " $$ " _ (by decide) line)

/-- Markers in comments in front of a body open nothing. -/
theorem read_gap_dollarLiteral_commentedGap :
    IsHeader wordyHeader ∧ IsGap commentedGap ∧
      startsWith isBlank commentedGap = true ∧
      ¬ (Mode.dollarQuote []).opening <:+: wordyBody ∧
      read (wordyHeader ++
          ("AS" ++ (commentedGap ++ dollarLiteral [] wordyBody))) =
        (read (wordyHeader ++ ("AS " ++ dollarLiteral [] wordyBody))).map
          (fun procedure =>
            { procedure with body := bodyBehind commentedGap wordyBody }) ∧
      ∀ procedure, read (wordyHeader ++ ("AS " ++ dollarLiteral [] wordyBody)) =
        .ok procedure →
          (read (wordyHeader ++
            ("AS" ++ (commentedGap ++ dollarLiteral [] wordyBody))) =
            .ok procedure ↔ commentedGap.all isBlank = true) := by
  have isHeader : IsHeader wordyHeader := isHeader_wordyHeader
  have starts : startsWith isBlank commentedGap = true := by decide
  have free : ¬ (Mode.dollarQuote []).opening <:+: wordyBody := by
    decide +kernel
  exact ⟨isHeader, isGap_commentedGap, starts, free,
    read_gap_dollarLiteral isHeader isGap_commentedGap starts free⟩

/-- A header without clauses that could be taken for a body. -/
def shortHeader : Text := "CREATE PROCEDURE p() RETURNS INT "

/-- The comment is read as a part of the body, and the markers with it. -/
theorem shortHeader_keeps_comment :
    IsHeader shortHeader ∧ IsGap (" /* c */ " : Text) ∧
      startsWith isBlank (" /* c */ " : Text) = true ∧
      ¬ (Mode.dollarQuote []).opening <:+: ("b" : Text) ∧
      (read (shortHeader ++ ("AS" ++ (" /* c */ " ++ dollarLiteral [] "b")))).map
        (·.body) = .ok "/* c */ $$b$$" ∧
      (read (shortHeader ++ ("AS " ++ dollarLiteral [] "b"))).map
        (·.body) = .ok "b" := by
  have lacking : (read shortHeader).map (·.body) =
      .error (.rejected (.missingBody .procedure)) := by
    decide +kernel
  have isHeader : IsHeader shortHeader :=
    .of_read (by decide +kernel) (by decide +kernel)
      (map_eq_error_iff.mp lacking)
  have blank : isBlank ' ' = true := by decide
  have isGap : IsGap (" /* c */ " : Text) :=
    .blank blank (@IsGap.block " c " [' '] (by decide) (.blank blank .nil))
  exact ⟨isHeader, isGap, by decide, by decide +kernel, by decide +kernel,
    by decide +kernel⟩

end Procedure

end Snowform
