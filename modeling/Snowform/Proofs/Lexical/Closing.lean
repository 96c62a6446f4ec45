import Snowform.Proofs.Lexical.Joining
import Snowform.Proofs.Lexical.Placement

/-!
# Scripts that end in code

A semicolon behind a script is one of code unless the script leaves a region
open.  What follows such a semicolon is then cut into statements as if it
stood alone; only its lines go on from those of the script.
-/

namespace Snowform

open Text

/-- A statement that stands a number of lines further down. -/
def Statement.shift (lines : Nat) (statement : Statement) : Statement :=
  { statement with line := statement.line + lines }

namespace Lexical

/-- A semicolon behind a script lies in code. -/
def IsClosed (script : Text) : Prop :=
  kindAt? (script ++ [';']) (byteSize script) = some .code

instance (script : Text) : Decidable (IsClosed script) :=
  inferInstanceAs (Decidable (_ = _))

/-! ## Regions -/

/-- The end of an open region takes in a semicolon. -/
theorem remainder_semicolon {mode : Mode} (opens : mode.Opens) :
    mode.remainder [';'] = [';'] := by
  rcases List.prefix_cons_iff.mp (mode.remainder_prefix [';']) with
    empty | ⟨rest, taken, starts⟩
  · exact absurd empty (remainder_ne_nil opens (by decide) (by decide) [])
  · rw [taken, List.prefix_nil.mp starts]

theorem LeftOpen.kindAt?_semicolon {script kept : Text} {done : List Region}
    {mode : Mode} (leftOpen : LeftOpen false script done mode kept) :
    kindAt? (script ++ [';']) (byteSize script) = some mode.kind := by
  obtain ⟨others, followed⟩ :=
    leftOpen.followed [';'] (startsNeutral_semicolon [])
  rw [remainder_semicolon leftOpen.opens] at followed
  -- The semicolon is painted right behind all characters of the script.
  generalize before : painted (done ++ [⟨mode.kind, kept⟩]) = earlier
  have parts : painted (lexemes (script ++ [';'])) =
      earlier ++ (';', mode.kind) :: painted others := by
    rw [lexemes, followed, ← before]
    simp
  have size : byteSize script = coveredSize paintedWidth earlier := by
    rw [← before, coveredSize_painted, ← leftOpen.alone, textOf_lexemesFrom]
  have wide : 0 < paintedWidth (';', mode.kind) := Char.utf8Size_pos ';'
  rw [kindAt?_eq, parts, size, coverAt?_append_cons _ _ _ wide]
  rfl

/-- A script is closed if a semicolon behind it is a region of its own. -/
theorem isClosed_of_lexemes {script : Text}
    (parts : lexemes (script ++ [';']) = lexemes script ++ [semicolon]) :
    IsClosed script := by
  have size : byteSize script =
      coveredSize paintedWidth (painted (lexemes script)) := by
    rw [coveredSize_painted, textOf_lexemes]
  have wide : 0 < paintedWidth (';', RegionKind.code) := Char.utf8Size_pos ';'
  rw [IsClosed, kindAt?_eq, parts, painted_append, size]
  exact congrArg (Option.map Prod.snd) (coverAt?_append_cons _ _ _ wide)

theorem IsClosed.settled {script : Text} (closed : IsClosed script) :
    Settled false script := by
  rcases settled_or_leftOpen false script with
    settled | ⟨done, mode, kept, leftOpen⟩
  · exact settled
  · have kind := leftOpen.kindAt?_semicolon.symm.trans closed
    exact absurd (Option.some.inj kind) leftOpen.opens.kind_ne_code

/-- A script that ends in code and what follows it do not see each other. -/
theorem IsClosed.lexemes_append {script : Text} (closed : IsClosed script)
    (rest : Text) :
    lexemes (script ++ ';' :: rest) =
      lexemes script ++ semicolon :: lexemes rest := by
  have neutral : isNeutral ';' = true := by decide
  rw [lexemes, closed.settled _ (startsNeutral_semicolon rest),
    lexemesFrom_code (special?_of_isNeutral neutral _ _),
    continuesName_of_isNeutral neutral]
  rfl

/-! ## Statements -/

theorem numberStatements_append (line : Nat) (first second : List Text) :
    numberStatements line (first ++ second) =
      numberStatements line first ++
        numberStatements (line + lineFeeds first.flatten) second := by
  induction first generalizing line with
  | nil => rfl
  | cons text others ih =>
      rw [List.cons_append, numberStatements, numberStatements, ih,
        List.flatten_cons, lineFeeds_append, Nat.add_assoc]
      split <;> rfl

theorem numberStatements_add (line lines : Nat) (texts : List Text) :
    numberStatements (line + lines) texts =
      (numberStatements line texts).map (Statement.shift lines) := by
  induction texts generalizing line with
  | nil => rfl
  | cons text others ih =>
      rw [numberStatements, numberStatements, Nat.add_right_comm line lines,
        ih]
      split
      next => rfl
      next =>
        rw [List.map_cons, Nat.add_right_comm line lines]
        rfl

theorem lineFeeds_pieces (regions : List Region) :
    lineFeeds ((piecesAt endsStatement regions).map textOf).flatten =
      lineFeeds (textOf regions) := by
  induction regions using pieceInduction with
  | last piece whole =>
      rw [piecesAt_of_forall whole]
      simp
  | next piece rest whole ih =>
      have feeds : lineFeeds semicolon.text = 0 := by decide
      rw [piecesAt_append_cons piece (by decide), piecesAt_of_forall whole,
        List.map_append, List.flatten_append, lineFeeds_append, ih]
      simp [feeds]

/-- The semicolons that are left out hold no line feeds. -/
theorem lineFeeds_statementTexts (script : Text) :
    lineFeeds (statementTexts script).flatten = lineFeeds script := by
  have feeds := lineFeeds_pieces (lexemes script)
  rw [textOf_lexemes] at feeds
  exact feeds

theorem IsClosed.statementTexts_append {script : Text}
    (closed : IsClosed script) (rest : Text) :
    statementTexts (script ++ ';' :: rest) =
      statementTexts script ++ statementTexts rest := by
  rw [statementTexts, closed.lexemes_append,
    piecesAt_append_cons _ (by decide), List.map_append]
  rfl

/-- The statements behind a script that ends in code only move down. -/
theorem IsClosed.statements_append {script : Text} (closed : IsClosed script)
    (rest : Text) :
    statements (script ++ ';' :: rest) =
      statements script ++
        (statements rest).map (Statement.shift (lineFeeds script)) := by
  rw [statements, closed.statementTexts_append, numberStatements_append,
    lineFeeds_statementTexts, numberStatements_add]
  rfl

end Lexical

end Snowform
