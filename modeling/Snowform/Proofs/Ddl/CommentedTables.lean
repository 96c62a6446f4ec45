import Snowform.Proofs.Ddl.CommentedClauses
import Snowform.Proofs.Ddl.SpacedContents

/-!
# Tables with comments

A table is read alike from a statement and from the statement with its
comments covered.  The parts of both stand at the same places; the column list
is one list of marks at two widths, and the clauses behind it say the same.

The main result leaves room for what comments can do: a comment inside of a
listed name is part of that name.  It does not speak of column lists with a
dollar body that holds a quote, nor of a comment clause in which a comment
holds a quote.
-/

namespace Snowform

open Text Lexical

/-! ## Sources -/

namespace Lexical

theorem textOf_shownRegions (region : Region) :
    textOf (region.shownRegions Region.blanked) = region.blanked := by
  rw [Region.shownRegions]
  split
  · exact textOf_codeRegions _
  · simp

/-- Covering the comments of regions covers them in their source. -/
theorem source?_revealed (regions : List Region) :
    source? (revealed (regions.flatMap Region.cells)) =
      some (regions.flatMap Region.blanked) := by
  induction regions with
  | nil => rfl
  | cons region others ih =>
      have here := source?_regions (region.shownRegions Region.blanked)
      rw [Region.cells_shownRegions, textOf_shownRegions] at here
      rw [List.flatMap_cons, List.flatMap_cons, revealed_append]
      exact source?_append here ih

end Lexical

/-! ## The column list -/

/-- What stands in parentheses, as it is written and with comments covered. -/
structure SpacedList (inside : List Cell) (list : Text) : Prop where
  source : source? inside = some list
  covered : source? (revealed inside) = some (blankComments list)
  narrow : stripComments list = rendered .narrow (marks list)
  wide : stripComments (blankComments list) = rendered .wide (marks list)
  steady : ¬ HidesQuote list → Steady {} (marks list)

theorem exists_spacedList {statement : Text} {before list inside tail : List Cell}
    (parts : cells statement = before ++ list)
    (found : parenthesised? list = some (inside, tail)) :
    ∃ written, SpacedList inside written := by
  obtain ⟨first, middle, last, cut, rfl, rfl⟩ :=
    exists_lexemes_of_parenthesised? parts found
  have alone : lexemes (textOf middle) = middle :=
    lexemes_textOf_between (by decide) (by decide) cut
  have marked : marks (textOf middle) = marksOf middle := by
    rw [marks, alone]
  have blanked : blankComments (textOf middle) =
      middle.flatMap Region.blanked := by
    rw [blankComments, alone]
    rfl
  refine ⟨textOf middle, source?_regions middle, ?_, ?_, ?_, ?_⟩
  · rw [blanked]
    exact source?_revealed middle
  · exact (rendered_narrow_marks _).symm
  · have ends : ∀ region ∈ middle.getLast?, region.kind ≠ .lineComment := by
      have whole := cut
      rw [← List.cons_append, ← List.append_assoc] at whole
      intro region isLast
      refine kind_ne_lineComment (by decide) whole region ?_
      rw [List.getLast?_append, List.getLast?_cons, Option.mem_def.mp isLast]
      rfl
    have chain := isChain_feedFollows false (textOf middle)
    rw [← lexemes, alone] at chain
    have nonempty : ∀ region ∈ middle, region.text ≠ [] := by
      intro region member
      rw [← alone] at member
      exact (isLexeme_of_mem_lexemes member).1
    rw [stripComments_blankComments, blanked, marked,
      rendered_wide_marksOf nonempty chain ends]
  · intro visible
    rw [marked]
    refine steady_marksOf (areFollowed_between cut) ?_ rfl
    intro region member kind
    have inList : region ∈ lexemes (textOf middle) := by
      rw [alone]
      exact member
    have known := fun quoted => visible ⟨region, inList, kind, quoted⟩
    exact ⟨fun single => known (Or.inl single),
      fun double => known (Or.inr double)⟩

/-! ## Tables -/

/-- A comment clause in which a comment holds a quote. -/
def Table.ClauseHidesQuote (statement : Text) : Prop :=
  ∃ name inside tail before clause after,
    Listed statement name inside tail ∧
    findFirst commentClause? [] tail = some (before, clause, after) ∧
    .veiled ' ' '\'' ∈ clause

/-- Tables that two statements with one column list create. -/
structure Table.ReadAlike (statement : Text) (table other : Table) : Prop where
  name : table.name = other.name
  columns : table.columns = other.columns
  constraints : ∃ list, HasList statement table.name list ∧
    List.Forall₂ (SameConstraint (marks list))
      table.constraints other.constraints
  comment : ¬ ClauseHidesQuote statement → table.comment = other.comment

theorem Table.exists_spacedList_of_listed {statement : Text}
    {name : QualifiedName} {inside tail : List Cell}
    (listed : Listed statement name inside tail) :
    ∃ written, SpacedList inside written := by
  obtain ⟨start, rest, named, closed⟩ := listed
  obtain ⟨before, parts⟩ := ((named.leaves.1.trans named.leaves.2).trans
    (leaves_skipBlanks rest)).suffix
  exact exists_spacedList parts.symm closed

/--
Covering the comments of a statement changes nothing of the table it creates
but the names its constraints list, where a comment stands inside of one.
-/
theorem Table.read_alike_with_comments_covered (statement : Text)
    (visible : ∀ name list, HasList statement name list → ¬ HidesQuote list) :
    Agree (fun one other => ReadAlike statement one.1 other.1)
      (read statement) (read (blankComments statement)) := by
  have covered : cells (blankComments statement) = revealed (cells statement) :=
    cells_blankComments statement
  rw [read, read, covered, readHead?_revealed, Reading.require_map]
  refine (Agree.of_map _ _).bind ?_
  rintro ⟨flags, start⟩ _ ⟨head, rfl⟩
  dsimp only [Prod.map, id]
  rw [readName_revealed]
  refine (Agree.of_map _ _).bind ?_
  rintro ⟨name, rest⟩ _ ⟨read, rfl⟩
  simp only [Prod.map, id, skipBlanks_revealed, startsWith_revealed,
    parenthesised?_revealed, Reading.require_map]
  split
  next opens =>
    refine (Agree.of_map _ _).bind ?_
    rintro ⟨inside, tail⟩ _ ⟨closed, rfl⟩
    dsimp only [Prod.map]
    have listed : Listed statement name inside tail :=
      ⟨start, rest, ⟨flags, Reading.require_eq_ok_iff.mp head, read⟩,
        Reading.require_eq_ok_iff.mp closed⟩
    have leaves := listed.leaves.2
    have whole := (whole_cells statement).of_leaves leaves
    obtain ⟨written, spaced⟩ := exists_spacedList_of_listed listed
    have source := sourceOf_eq_ok_iff.mpr spaced.source
    have hasList : HasList statement name written :=
      ⟨inside, tail, listed, source⟩
    rw [readSource, readSource, source, sourceOf_eq_ok_iff.mpr spaced.covered]
    refine (Contents.read_marks name.name
      (spaced.steady (visible name written hasList)) spaced.narrow
      spaced.wide).ofFault.bind ?_
    rintro contents other same
    obtain ⟨before, parts⟩ := leaves.suffix
    have alike : LookAlike tail (revealed tail) :=
      ⟨whole, whole.revealed, (shownText_revealed tail).symm⟩
    obtain ⟨comment, another, commented, recommented, -⟩ := alike.findComment
    obtain ⟨keys, clustered⟩ := whole.readClusterBy
    obtain ⟨others, reclustered⟩ := whole.revealed.readClusterBy
    rw [commented, clustered, recommented, reclustered]
    refine .read {
      name := rfl
      columns := same.columns
      constraints := ⟨written, hasList, same.constraints⟩
      comment := ?_ }
    intro clear
    have same := findComment_revealed parts.symm leaves
      fun _ _ _ found hidden => clear ⟨_, _, _, _, _, _, listed, found, hidden⟩
    rw [commented, recommented] at same
    exact (Except.ok.inj same).symm
  next => exact .failed _

/-- Only a list with a dollar sign hides a quote. -/
theorem not_hidesQuote_of_undollared {list : Text} (undollared : '$' ∉ list) :
    ¬ HidesQuote list := by
  rintro ⟨region, member, dollar, -⟩
  obtain ⟨first, others, parts⟩ := List.append_of_mem member
  obtain ⟨mode, behind, -, rfl, -⟩ :=
    exists_mode_of_parts parts (by rw [dollar]; decide)
  cases mode with
  | dollarQuote tag =>
      refine undollared ?_
      rw [← textOf_lexemes list, parts, textOf_append, textOf_cons]
      exact List.mem_append_right _ (List.mem_append_left _ List.mem_cons_self)
  | _ => cases dollar

namespace Table

/-- A statement with a quote, a parenthesis and a comma in its comments. -/
def commentedStatement : Text :=
  "CREATE TABLE t (a INT /* it's ( */, b INT -- , )\n) COMMENT /**/ = 'x'"

/-- Quotes and parentheses inside of comments change nothing of the table. -/
theorem read_alike_commentedStatement :
    (∀ name list, HasList commentedStatement name list → ¬ HidesQuote list) ∧
      Agree (fun one other => ReadAlike commentedStatement one.1 other.1)
        (read commentedStatement)
        (read (blankComments commentedStatement)) := by
  have undollared : '$' ∉ commentedStatement := by decide
  have visible : ∀ name list, HasList commentedStatement name list →
      ¬ HidesQuote list := by
    rintro name list ⟨inside, tail, listed, source⟩
    have within :=
      (InPlace.of_cutsOut listed.leaves.1).isInfix source
    exact not_hidesQuote_of_undollared fun member =>
      undollared (within.subset member)
  exact ⟨visible, read_alike_with_comments_covered commentedStatement visible⟩

/-- A comment inside of the name of a key column. -/
def commentedKey : Text :=
  "CREATE TABLE t (a INT, PRIMARY KEY (a/**/b))"

/-- A comment inside of a name is one blank of it. -/
theorem commentedKey_keeps_gap :
    (read commentedKey).map (·.1.constraints.map (·.columns)) =
        .ok [["a b"]] ∧
      (read (blankComments commentedKey)).map
          (·.1.constraints.map (·.columns)) = .ok [["a    b"]] := by
  decide +kernel

end Table

end Snowform
