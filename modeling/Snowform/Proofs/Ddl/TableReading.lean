import Snowform.Ddl.Table
import Snowform.Proofs.Ddl.Reading

/-!
# What reading a table takes

A table is read in steps: the head, the name, the column list and the clauses
behind it.  `Table.ReadAs` names what each of them found.

On the way notes are taken, all of them on single entries of the column list.
-/

namespace Snowform

open Text Lexical

/-! ## Steps -/

/-- What the steps of reading a table found. -/
structure Table.ReadAs (statement : Text) (table : Table)
    (notes : List Note) (flags : HeadFlags) (start rest inside tail : List Cell)
    (written : Text) (contents : Table.Contents) : Prop where
  head : readHead? .table (cells statement) = some (flags, start)
  name : readName .table start = .ok (table.name, rest)
  opens : startsWith (· == '(') (skipBlanks rest) = true
  list : parenthesised? (skipBlanks rest) = some (inside, tail)
  source : readSource inside = .ok written
  entries : Contents.read table.name.name written = .ok contents
  columns_eq : table.columns = contents.columns
  constraints_eq : table.constraints = contents.constraints
  comment : findComment tail = .ok table.comment
  clusterBy : readClusterBy tail = .ok table.clusterBy
  notes_eq : notes = contents.notes

/-- A table that is read has gone through every step of the reading. -/
theorem Table.exists_readAs {statement : Text} {table : Table}
    {notes : List Note} (result : read statement = .ok (table, notes)) :
    ∃ flags start rest inside tail written contents,
      ReadAs statement table notes flags start rest inside tail written
        contents := by
  rw [read, bind_eq_ok_iff] at result
  obtain ⟨⟨flags, start⟩, head, result⟩ := result
  rw [bind_eq_ok_iff] at result
  obtain ⟨⟨name, rest⟩, named, result⟩ := result
  dsimp only at result
  split at result
  next opens =>
    rw [bind_eq_ok_iff] at result
    obtain ⟨⟨inside, tail⟩, list, result⟩ := result
    rw [bind_eq_ok_iff] at result
    obtain ⟨written, source, result⟩ := result
    rw [bind_eq_ok_iff] at result
    obtain ⟨contents, known, result⟩ := result
    rw [bind_eq_ok_iff] at result
    obtain ⟨comment, commented, result⟩ := result
    rw [bind_eq_ok_iff] at result
    obtain ⟨clusterBy, clustered, result⟩ := result
    cases result
    exact ⟨flags, start, rest, inside, tail, written, contents, {
      head := Reading.require_eq_ok_iff.mp head
      name := named
      opens := opens
      list := Reading.require_eq_ok_iff.mp list
      source := source
      entries := Reading.ofFault_eq_ok_iff.mp known
      columns_eq := rfl
      constraints_eq := rfl
      comment := Reading.ofFault_eq_ok_iff.mp commented
      clusterBy := Reading.ofFault_eq_ok_iff.mp clustered
      notes_eq := rfl }⟩
  next => cases result

/-! ## Notes -/

/-- Notes on a single entry of a column list. -/
def Note.IsOnEntry : Note → Prop
  | .skippedOption _ _ | .skippedConstraint _ _ | .skippedEntry _ _ => True
  | _ => False

namespace Table.Contents

/-- All notes that were taken are on entries. -/
def NotesEntries (contents : Contents) : Prop :=
  ∀ note ∈ contents.notes, note.IsOnEntry

/-- A note on an entry may be added. -/
theorem NotesEntries.addNote {contents : Contents}
    (entries : contents.NotesEntries) {note : Note}
    (onEntry : note.IsOnEntry) : (contents.addNote note).NotesEntries := by
  rw [NotesEntries, Contents.addNote, List.forall_mem_append]
  constructor
  · exact entries
  · rw [List.forall_mem_singleton]
    exact onEntry

theorem notes_addConstraints (table : Text) (contents : Contents)
    (drafts : List DraftConstraint) :
    (contents.addConstraints table drafts).notes = contents.notes := by
  induction drafts generalizing contents with
  | nil => rfl
  | cons draft others ih => exact ih _

/-- Constraints that are added leave no note. -/
theorem NotesEntries.addConstraints {contents : Contents}
    (entries : contents.NotesEntries) (table : Text)
    (drafts : List DraftConstraint) :
    (contents.addConstraints table drafts).NotesEntries := by
  rw [NotesEntries, notes_addConstraints]
  exact entries

/-- The notes of a column are on its entry. -/
theorem NotesEntries.addColumn {contents : Contents}
    (entries : contents.NotesEntries) (table : Text) (entry : ColumnEntry) :
    (contents.addColumn table entry).NotesEntries := by
  apply NotesEntries.addConstraints
  rw [NotesEntries, List.forall_mem_append]
  constructor
  · exact entries
  · intro note member
    obtain ⟨option, -, rfl⟩ := List.mem_map.mp member
    trivial

/-- Reading a column leaves notes on entries only. -/
theorem NotesEntries.readColumn {table entry : Text}
    {contents changed : Contents} (entries : contents.NotesEntries)
    (result : contents.readColumn table entry = .ok changed) :
    changed.NotesEntries := by
  rw [Contents.readColumn, bind_eq_ok_iff] at result
  obtain ⟨column?, -, result⟩ := result
  cases column? with
  | none =>
      cases result
      exact entries.addNote trivial
  | some column =>
      cases result
      exact entries.addColumn table column

/-- Reading one entry leaves notes on entries only. -/
theorem NotesEntries.readEntry {table entry : Text}
    {contents changed : Contents} (entries : contents.NotesEntries)
    (result : contents.readEntry table entry = .ok changed) :
    changed.NotesEntries := by
  rw [Contents.readEntry] at result
  split at result
  next =>
    rw [bind_eq_ok_iff] at result
    obtain ⟨draft?, -, result⟩ := result
    cases draft? with
    | some draft =>
        cases result
        exact entries.addConstraints table [draft]
    | none =>
        dsimp only at result
        split at result
        next =>
          cases result
          exact entries.addNote trivial
        next => exact entries.readColumn result
  next => exact entries.readColumn result

/-- Reading a whole list leaves notes on entries only. -/
theorem notesEntries_of_read {table list : Text} {contents : Contents}
    (result : read table list = .ok contents) : contents.NotesEntries := by
  refine foldlM_keeps NotesEntries.readEntry ?_ result
  intro note member
  cases member

end Table.Contents

/-- Reading a table only takes notes on entries of its column list. -/
theorem Table.isOnEntry_of_read {statement : Text} {table : Table}
    {notes : List Note} (result : read statement = .ok (table, notes)) :
    ∀ note ∈ notes, note.IsOnEntry := by
  obtain ⟨_, _, _, _, _, _, contents, readAs⟩ := exists_readAs result
  rw [readAs.notes_eq]
  exact Contents.notesEntries_of_read readAs.entries

end Snowform
