import Snowform.Proofs.Lexical.Regions
import Snowform.Proofs.Text.Pieces
import Snowform.Proofs.Text.Trimming

/-!
# Where statements stand

The smallest regions of a script fall into pieces with one semicolon of code
between them, and a statement is what is left of a piece when it is trimmed.
`StandsIn` says so of a single statement; the lemmas about all statements go
through the pieces one by one and carry along the offset and the line that
the next piece starts at.
-/

namespace Snowform.Lexical

open Text

/-- The region that ends a statement. -/
def semicolon : Region := ⟨.code, [';']⟩

/-- The semicolon of code is the only region that ends a statement. -/
theorem endsStatement_iff (region : Region) :
    endsStatement region = true ↔ region = semicolon := by
  cases region
  simp [endsStatement, semicolon]

/-- The statements that regions hold, placed from an offset and a line on. -/
def placeRegions (start line : Nat) (regions : List Region) :
    List PlacedStatement :=
  placeStatements start line
    ((piecesAt endsStatement regions).map textOf)

theorem placedStatements_eq (script : Text) :
    placedStatements script = placeRegions 0 1 (lexemes script) := rfl

/-- Regions without a semicolon of code are one statement at most. -/
theorem placeRegions_last {piece : List Region}
    (whole : ∀ region ∈ piece, endsStatement region = false)
    (start line : Nat) :
    placeRegions start line piece =
      (placeStatement? start line (textOf piece)).toList := by
  rw [placeRegions, piecesAt_of_forall whole]
  simp [placeStatements]

/--
A semicolon of code ends a statement, and the next one is placed behind it.
-/
theorem placeRegions_next {piece : List Region}
    (whole : ∀ region ∈ piece, endsStatement region = false)
    (start line : Nat) (rest : List Region) :
    placeRegions start line (piece ++ semicolon :: rest) =
      (placeStatement? start line (textOf piece)).toList ++
        placeRegions (start + byteSize (textOf piece) + 1)
          (line + lineFeeds (textOf piece)) rest := by
  rw [placeRegions, piecesAt_append_cons piece (by decide),
    piecesAt_of_forall whole]
  rfl

/-- Induction along the pieces between semicolons. -/
@[elab_as_elim]
theorem pieceInduction {motive : List Region → Prop}
    (last : ∀ piece, (∀ region ∈ piece, endsStatement region = false) →
      motive piece)
    (next : ∀ piece rest,
      (∀ region ∈ piece, endsStatement region = false) → motive rest →
      motive (piece ++ semicolon :: rest))
    (regions : List Region) : motive regions := by
  induction regions using separatedInduction endsStatement with
  | last piece whole => exact last piece whole
  | next piece separator rest whole stops ih =>
      rw [(endsStatement_iff separator).mp stops]
      exact next piece rest whole ih

@[simp]
theorem lineFeeds_append (first second : Text) :
    lineFeeds (first ++ second) = lineFeeds first + lineFeeds second :=
  List.count_append

/-! ## A single statement -/

/-- A statement is the trimmed text of regions without a semicolon of code. -/
structure StandsIn (start line : Nat) (regions : List Region)
    (placed : PlacedStatement) (before inside after : List Region) :
    Prop where
  parts : regions = before ++ (inside ++ after)
  whole : ∀ region ∈ inside, endsStatement region = false
  fromSemicolon : before = [] ∨ ∃ others, before = others ++ [semicolon]
  toSemicolon : after = [] ∨ ∃ others, after = semicolon :: others
  text_eq : placed.text = trim (textOf inside)
  nonempty : placed.text ≠ []
  start_eq : placed.start = start +
    byteSize (textOf before ++ leadingBlanks (textOf inside))
  line_eq : placed.line = line +
    lineFeeds (textOf before ++ leadingBlanks (textOf inside))

/--
A statement is placed behind the blanks in front of it, on the line where its
text starts.
-/
theorem placeStatement?_eq_some {start line : Nat} {text : Text}
    {placed : PlacedStatement}
    (found : placeStatement? start line text = some placed) :
    placed.text = trim text ∧ placed.text ≠ [] ∧
      placed.start = start + byteSize (leadingBlanks text) ∧
      placed.line = line + lineFeeds (leadingBlanks text) := by
  rw [placeStatement?] at found
  split at found
  next => cases found
  next visible =>
    cases found
    refine ⟨rfl, ?_, rfl, rfl⟩
    intro empty
    exact visible (List.isEmpty_iff.mpr empty)

/-- Only blanks are no statement. -/
theorem placeStatement?_eq_none {start line : Nat} {text : Text}
    (absent : placeStatement? start line text = none) : trim text = [] := by
  rw [placeStatement?] at absent
  split at absent
  next empty => exact List.isEmpty_iff.mp empty
  next => cases absent

/-- A statement stands between the start and the first semicolon of code. -/
theorem StandsIn.of_piece {start line : Nat} {piece after : List Region}
    {placed : PlacedStatement}
    (whole : ∀ region ∈ piece, endsStatement region = false)
    (toSemicolon : after = [] ∨ ∃ others, after = semicolon :: others)
    (found : placeStatement? start line (textOf piece) = some placed) :
    StandsIn start line (piece ++ after) placed [] piece after := by
  obtain ⟨text, nonempty, start, line⟩ := placeStatement?_eq_some found
  exact {
    parts := rfl
    whole := whole
    fromSemicolon := Or.inl rfl
    toSemicolon := toSemicolon
    text_eq := text
    nonempty := nonempty
    start_eq := start
    line_eq := line }

/-- What stands behind a semicolon of code stands in the whole. -/
theorem StandsIn.behind {start line : Nat}
    {piece rest before inside after : List Region}
    {placed : PlacedStatement}
    (stands : StandsIn (start + byteSize (textOf piece) + 1)
      (line + lineFeeds (textOf piece)) rest placed before inside after) :
    StandsIn start line (piece ++ semicolon :: rest) placed
      (piece ++ semicolon :: before) inside after where
  parts := by simp [stands.parts]
  whole := stands.whole
  fromSemicolon := by
    rcases stands.fromSemicolon with rfl | ⟨others, rfl⟩
    · exact Or.inr ⟨piece, rfl⟩
    · exact Or.inr ⟨piece ++ semicolon :: others, by simp⟩
  toSemicolon := stands.toSemicolon
  text_eq := stands.text_eq
  nonempty := stands.nonempty
  start_eq := by
    have width : byteSize semicolon.text = 1 := by decide
    rw [stands.start_eq]
    simp only [textOf_append, textOf_cons, byteSize_append, width]
    omega
  line_eq := by
    have feeds : lineFeeds semicolon.text = 0 := by decide
    rw [stands.line_eq]
    simp only [textOf_append, textOf_cons, lineFeeds_append, feeds]
    omega

/-- A placed statement stands between semicolons of code or the ends of a text. -/
theorem standsIn_of_mem_placeRegions {regions : List Region}
    {start line : Nat} {placed : PlacedStatement}
    (member : placed ∈ placeRegions start line regions) :
    ∃ before inside after,
      StandsIn start line regions placed before inside after := by
  induction regions using pieceInduction generalizing start line with
  | last piece whole =>
      rw [placeRegions_last whole, Option.mem_toList] at member
      have stands := StandsIn.of_piece whole (Or.inl rfl) member
      rw [List.append_nil] at stands
      exact ⟨[], piece, [], stands⟩
  | next piece rest whole ih =>
      rw [placeRegions_next whole] at member
      rcases List.mem_append.mp member with here | later
      · rw [Option.mem_toList] at here
        exact ⟨[], piece, semicolon :: rest,
          StandsIn.of_piece whole (Or.inr ⟨rest, rfl⟩) here⟩
      · obtain ⟨before, inside, after, stands⟩ := ih later
        exact ⟨piece ++ semicolon :: before, inside, after, stands.behind⟩

/-- No statement starts before the offset that statements are placed from. -/
theorem le_start_of_mem_placeRegions {regions : List Region}
    {start line : Nat} {placed : PlacedStatement}
    (member : placed ∈ placeRegions start line regions) :
    start ≤ placed.start := by
  obtain ⟨before, inside, after, stands⟩ :=
    standsIn_of_mem_placeRegions member
  rw [stands.start_eq]
  exact Nat.le_add_right _ _

end Snowform.Lexical
