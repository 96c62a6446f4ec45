import Snowform.Ddl.Script
import Snowform.Proofs.Ddl.TableReading
import Snowform.Proofs.Lexical.Closing

/-!
# Scripts behind each other

A script that ends in code can be read apart from what follows its semicolon.
The objects of both stand behind each other, and so do the diagnostics and
notes, of which the later ones tell lines further down.  Reading fails where
reading one of the two fails.

A part of a script that creates nothing may as well be left out: whatever is
wrong with it, its neighbours are read as if it were not there.
-/

namespace Snowform

open Text Lexical

def Diagnostic.shift (lines : Nat) (diagnostic : Diagnostic) : Diagnostic :=
  { diagnostic with line := diagnostic.line + lines }

def Note.shift (lines : Nat) : Note → Note
  | .droppedStatement diagnostic =>
      .droppedStatement (diagnostic.shift lines)
  | note => note

/-- A note on an entry names no line, so moving lines leaves it alone. -/
theorem Note.IsOnEntry.shift {note : Note} (onEntry : note.IsOnEntry)
    (lines : Nat) : note.shift lines = note := by
  cases note with
  | skippedOption option column => rfl
  | skippedConstraint table entry => rfl
  | skippedEntry table entry => rfl
  | _ => exact onEntry.elim

/-- The notes of a table name no line. -/
theorem Table.map_shift_of_read {statement : Text} {table : Table}
    {notes : List Note} (result : read statement = .ok (table, notes))
    (lines : Nat) : notes.map (Note.shift lines) = notes := by
  have onEntry := isOnEntry_of_read result
  calc
    notes.map (Note.shift lines) = notes.map id := by
      apply List.map_congr_left
      intro note member
      exact (onEntry note member).shift lines
    _ = notes := List.map_id notes

/-- The notes of any object name no line. -/
theorem DdlObject.map_shift_of_read {object : ObjectKind} {statement : Text}
    {created : DdlObject} {notes : List Note}
    (result : read object statement = .ok (created, notes)) (lines : Nat) :
    notes.map (Note.shift lines) = notes := by
  cases object with
  | table =>
      obtain ⟨⟨table, taken⟩, known, same⟩ := map_eq_ok_iff.mp result
      cases same
      exact Table.map_shift_of_read known lines
  | view =>
      obtain ⟨view, -, same⟩ := map_eq_ok_iff.mp result
      cases same
      rfl
  | procedure =>
      obtain ⟨procedure, -, same⟩ := map_eq_ok_iff.mp result
      cases same
      rfl

namespace Script

/-- A script that stands a number of lines further down. -/
def shift (lines : Nat) (script : Script) : Script where
  objects := script.objects
  diagnostics := script.diagnostics.map (Diagnostic.shift lines)
  notes := script.notes.map (Note.shift lines)

/-! ## Putting results together -/

theorem append_assoc (first second third : Script) :
    (first.append second).append third =
      first.append (second.append third) := by
  simp [append]

theorem shift_append (lines : Nat) (first second : Script) :
    (first.append second).shift lines =
      (first.shift lines).append (second.shift lines) := by
  simp [append, shift]

/-- Statements one behind the other are read one behind the other. -/
theorem ofStatements_append (first second : List Statement) :
    ofStatements (first ++ second) = do
      let earlier ← ofStatements first
      let later ← ofStatements second
      return earlier.append later := by
  induction first with
  | nil =>
      rw [List.nil_append]
      cases ofStatements second <;> rfl
  | cons statement others ih =>
      rw [List.cons_append, ofStatements, ofStatements, ih]
      cases ofStatement statement with
      | error fault => rfl
      | ok script =>
          cases ofStatements others with
          | error fault => rfl
          | ok earlier =>
              cases ofStatements second with
              | error fault => rfl
              | ok later =>
                  exact congrArg Except.ok
                    (append_assoc script earlier later).symm

/-! ## Moving statements down -/

/-- A statement further down reads the same on a later line. -/
theorem ofStatement_shift (lines : Nat) (statement : Statement) :
    ofStatement (statement.shift lines) =
      (ofStatement statement).map (shift lines) := by
  rw [ofStatement, ofStatement, Statement.shift]
  dsimp only
  split
  next => rfl
  next object _ =>
    cases result : DdlObject.read object statement.text with
    | ok pair =>
        have notes := DdlObject.map_shift_of_read result lines
        change Except.ok _ = Except.ok _
        rw [shift]
        dsimp only
        rw [notes]
        rfl
    | error failure => cases failure <;> rfl

/-- Statements further down read the same on later lines. -/
theorem ofStatements_map_shift (lines : Nat) (statements : List Statement) :
    ofStatements (statements.map (Statement.shift lines)) =
      (ofStatements statements).map (shift lines) := by
  induction statements with
  | nil => rfl
  | cons statement others ih =>
      rw [List.map_cons, ofStatements, ofStatements, ih, ofStatement_shift]
      cases ofStatement statement with
      | error fault => rfl
      | ok first =>
          cases ofStatements others with
          | error fault => rfl
          | ok second =>
              exact congrArg Except.ok (shift_append lines first second).symm

/-! ## Scripts that end in code -/

theorem read_behind {script : Text} (closed : IsClosed script)
    (rest : Text) :
    read (script ++ ';' :: rest) = do
      let first ← read script
      let second ← read rest
      return first.append (second.shift (lineFeeds script)) := by
  rw [read, closed.statements_append, ofStatements_append,
    ofStatements_map_shift]
  change _ = (ofStatements (statements script) >>= fun first =>
    ofStatements (statements rest) >>= fun second =>
      pure (first.append (second.shift (lineFeeds script))))
  cases ofStatements (statements script) with
  | error fault => rfl
  | ok first => cases ofStatements (statements rest) <;> rfl

/--
The objects of two scripts are those of the first and then those of the second.
-/
theorem objects_behind {script : Text} (closed : IsClosed script)
    (rest : Text) :
    (read (script ++ ';' :: rest)).map objects = do
      let first ← (read script).map objects
      let second ← (read rest).map objects
      return first ++ second := by
  rw [read_behind closed]
  cases read script with
  | error fault => rfl
  | ok first => cases read rest <;> rfl

/--
A script that ends in code is read apart from what follows its semicolon, and
a part without objects behind it does not change the objects that are read.
-/
theorem read_apart {script : Text} (closed : IsClosed script) :
    (∀ rest, read (script ++ ';' :: rest) = do
      let first ← read script
      let second ← read rest
      return first.append (second.shift (lineFeeds script))) ∧
    ∀ part, IsClosed part → (read part).map objects = .ok [] → ∀ rest,
      (read (script ++ ';' :: (part ++ ';' :: rest))).map objects =
        (read (script ++ ';' :: rest)).map objects := by
  constructor
  · exact read_behind closed
  · intro part partClosed nothing rest
    have skipped : (read (part ++ ';' :: rest)).map objects =
        (read rest).map objects := by
      rw [objects_behind partClosed, nothing]
      cases read rest <;> rfl
    rw [objects_behind closed, objects_behind closed, skipped]

/--
A comment at the end, a table that cannot be read in the middle and a view
behind it.
-/
theorem read_apart_around_table_without_columns :
    let script : Text := "DROP TABLE t -- old\n"
    let part : Text := "CREATE TABLE t"
    let rest : Text := "CREATE VIEW v AS SELECT 1"
    IsClosed script ∧ IsClosed part ∧ (read part).map objects = .ok [] ∧
      (read (script ++ ';' :: part) = do
        let first ← read script
        let second ← read part
        return first.append (second.shift (lineFeeds script))) ∧
      (read (script ++ ';' :: (part ++ ';' :: rest))).map objects =
        (read (script ++ ';' :: rest)).map objects := by
  intro script part rest
  have closed : IsClosed script := by decide +kernel
  have partClosed : IsClosed part := by decide +kernel
  have nothing : (read part).map objects = .ok [] := by decide +kernel
  have apart := read_apart closed
  exact ⟨closed, partClosed, nothing, apart.1 part,
    apart.2 part partClosed nothing rest⟩

end Script

end Snowform
