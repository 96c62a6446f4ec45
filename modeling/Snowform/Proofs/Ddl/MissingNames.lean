import Snowform.Ddl.Script
import Snowform.Proofs.Ddl.Lookalikes
import Snowform.Proofs.Ddl.Reading
import Snowform.Proofs.Ddl.RecognisedHeads

/-!
# Names that are missing

A statement that is recognised has a head, so a diagnostic that its object
has no name is about the name: there is none behind the head, or an empty
one.  Whatever is read behind the name is rejected for other reasons.
-/

namespace Snowform

open Text Lexical

/-! ## Behind the name -/

/-- A reading that no missing name is a reason to reject. -/
def Reading.PastName {α : Type} (reading : Reading α) : Prop :=
  ∀ object, reading ≠ .error (.rejected (.missingName object))

namespace Reading.PastName

variable {α β : Type}

theorem ok (value : α) : PastName (.ok value) := nofun

theorem ofFault (result : Except Fault α) : PastName (Reading.ofFault result) :=
  fun _ => Reading.ofFault_ne_rejected

theorem reject {reason : Rejection}
    (other : ∀ object, reason ≠ .missingName object) :
    PastName (Reading.reject reason : Reading α) := by
  intro object same
  cases same
  exact other object rfl

theorem require {reason : Rejection}
    (other : ∀ object, reason ≠ .missingName object) (found : Option α) :
    PastName (Reading.require reason found) := by
  cases found with
  | none => exact reject other
  | some value => exact ok value

/-- Readings that are past the name stay past it together. -/
theorem bind {reading : Reading α} {next : α → Reading β}
    (first : PastName reading) (behind : ∀ value, PastName (next value)) :
    PastName (reading >>= next) := by
  intro object missing
  rcases bind_eq_error_iff.mp missing with here | ⟨value, -, later⟩
  · exact first object here
  · exact behind value object later

end Reading.PastName

open Reading (PastName)

/-- What misses a name and is past it misses the name there. -/
theorem Reading.PastName.error_of_bind {α β : Type} {reading : Reading α}
    {next : α → Reading β} {object : ObjectKind}
    (past : ∀ value, PastName (next value))
    (missing : reading >>= next = .error (.rejected (.missingName object))) :
    reading = .error (.rejected (.missingName object)) := by
  rcases bind_eq_error_iff.mp missing with here | ⟨value, -, later⟩
  · exact here
  · exact absurd later (past value object)

section

variable {statement : Text} {other : ObjectKind} {flags : HeadFlags}
  {start : List Cell}

/-- A table misses its name only where the name is read. -/
theorem Table.readName_of_missingName
    (found : readHead? .table (cells statement) = some (flags, start))
    (missing : Table.read statement =
      .error (.rejected (.missingName other))) :
    readName .table start = .error (.rejected (.missingName other)) := by
  rw [Table.read, found] at missing
  change readName .table start >>= _ = _ at missing
  refine PastName.error_of_bind ?_ missing
  rintro ⟨name, rest⟩
  dsimp only
  split
  · exact .bind (.require (by rintro _ ⟨⟩) _) fun _ =>
      .bind (.ofFault _) fun _ => .bind (.ofFault _) fun _ =>
        .bind (.ofFault _) fun _ => .bind (.ofFault _) fun _ => .ok _
  · exact .reject (by rintro _ ⟨⟩)

/-- A view misses its name only where the name is read. -/
theorem View.readName_of_missingName
    (found : readHead? .view (cells statement) = some (flags, start))
    (missing : View.read statement =
      .error (.rejected (.missingName other))) :
    readName .view start = .error (.rejected (.missingName other)) := by
  rw [View.read, found] at missing
  change readName .view start >>= _ = _ at missing
  refine PastName.error_of_bind ?_ missing
  rintro ⟨name, rest⟩
  have columns : PastName (View.readColumns rest) := by
    rw [View.readColumns]
    split
    · exact .bind (.require (by rintro _ ⟨⟩) _) fun _ =>
        .bind (.ofFault _) fun _ => .ok _
    · exact .ok _
  refine columns.bind fun _ => .bind (.require (by rintro _ ⟨⟩) _) fun _ =>
    .bind (.ofFault _) fun _ => ?_
  dsimp only
  split
  · exact .reject (by rintro _ ⟨⟩)
  · exact .bind (.ofFault _) fun _ => .ok _

/-- A procedure misses its name only where the name is read. -/
theorem Procedure.readName_of_missingName
    (found : readHead? .procedure (cells statement) = some (flags, start))
    (missing : Procedure.read statement =
      .error (.rejected (.missingName other))) :
    readName .procedure start = .error (.rejected (.missingName other)) := by
  rw [Procedure.read, found] at missing
  change readName .procedure start >>= _ = _ at missing
  refine PastName.error_of_bind ?_ missing
  rintro ⟨name, rest⟩
  dsimp only
  split
  · exact .reject (by rintro _ ⟨⟩)
  · have typed : ∀ type : Option (List Cell),
        PastName (type.mapM readSource) := by
      intro type
      cases type with
      | none => exact .ok _
      | some list => exact .bind (.ofFault _) fun _ => .ok _
    exact .bind (.require (by rintro _ ⟨⟩) _) fun _ =>
      .bind (.ofFault _) fun _ => .bind (.require (by rintro _ ⟨⟩) _) fun _ =>
        .bind (typed _) fun _ => .bind (.ofFault _) fun _ =>
          .bind (.ofFault _) fun _ => .ok _

/-- A statement with a head misses its name behind the head only. -/
theorem DdlObject.readName_of_missingName {object : ObjectKind}
    (found : readHead? object (cells statement) = some (flags, start))
    (missing : DdlObject.read object statement =
      .error (.rejected (.missingName other))) :
    readName object start = .error (.rejected (.missingName other)) := by
  cases object with
  | table =>
      exact Table.readName_of_missingName found (map_eq_error_iff.mp missing)
  | view =>
      exact View.readName_of_missingName found (map_eq_error_iff.mp missing)
  | procedure =>
      exact Procedure.readName_of_missingName found
        (map_eq_error_iff.mp missing)

end

/-! ## Scripts -/

/-- The name that is written behind a head is missing, or an empty one. -/
def MissesName (list : List Cell) : Prop :=
  nameCells list = [] ∨
    ∃ text, source? (nameCells list) = some text ∧
      (QualifiedName.ofText text).name = []

/-- Where a name is missed there is none, or an empty one. -/
theorem missesName_of_readName {object other : ObjectKind} {list : List Cell}
    (missing : readName object list =
      .error (.rejected (.missingName other))) :
    other = object ∧ MissesName list := by
  rw [readName_eq] at missing
  split at missing
  next empty =>
    cases missing
    exact ⟨rfl, .inl (List.isEmpty_iff.mp empty)⟩
  next =>
    rcases bind_eq_error_iff.mp missing with here | ⟨text, source, later⟩
    · exact absurd here Reading.ofFault_ne_rejected
    · dsimp only at later
      split at later
      next empty =>
        cases later
        exact ⟨rfl, .inr ⟨text, sourceOf_eq_ok_iff.mp
          (Reading.ofFault_eq_ok_iff.mp source), List.isEmpty_iff.mp empty⟩⟩
      next => cases later

theorem DdlObject.creates_of_kindOf? {statement : Text} {object : ObjectKind}
    (kind : kindOf? statement = some object) :
    creates object (stripComments statement) = true := by
  have found := List.find?_some kind
  exact found

namespace Script

/-- A diagnostic says why a recognised statement is not read. -/
theorem exists_of_mem_diagnostics {list : List Statement} {script : Script}
    (result : ofStatements list = .ok script) {diagnostic : Diagnostic}
    (member : diagnostic ∈ script.diagnostics) :
    ∃ statement ∈ list, ∃ object,
      DdlObject.kindOf? statement.text = some object ∧
      DdlObject.read object statement.text =
        .error (.rejected diagnostic.reason) ∧
      diagnostic.line = statement.line ∧
      diagnostic.excerpt = excerpt statement.text := by
  induction list generalizing script with
  | nil =>
      cases result
      cases member
  | cons statement others ih =>
      obtain ⟨first, head, result⟩ := bind_eq_ok_iff.mp result
      obtain ⟨second, behind, same⟩ := bind_eq_ok_iff.mp result
      cases same
      rcases List.mem_append.mp member with here | later
      · rw [ofStatement] at head
        split at head
        next =>
          cases head
          cases here
        next object kind =>
          split at head
          next =>
            cases head
            cases here
          next reason rejected =>
            cases head
            rw [List.mem_singleton.mp here]
            exact ⟨statement, List.mem_cons_self, object, kind, rejected,
              rfl, rfl⟩
          next => cases head
      · obtain ⟨other, known, found⟩ := ih behind later
        exact ⟨other, List.mem_cons_of_mem statement known, found⟩

/--
What a statement is recognised as is what its masked text has a head of, with
the flags that were recognised; no statement is recognised as two kinds of
object.  So a diagnostic that an object has no name is about a statement of
that kind whose head is found and whose name behind the head is missing.
-/
theorem recognised_statements_have_head (text : Text) :
    (∀ first second, creates first (stripComments text) = true →
      creates second (stripComments text) = true → first = second) ∧
    (∀ object, creates object (stripComments text) = true →
      ∃ flags rest start,
        beforeKind? object (stripComments text) = some (flags, rest) ∧
        readHead? object (cells text) = some (flags, start)) ∧
    (∀ script, read text = .ok script →
      ∀ diagnostic ∈ script.diagnostics, ∀ object,
        diagnostic.reason = .missingName object →
        ∃ statement ∈ statements text,
          diagnostic.line = statement.line ∧
          diagnostic.excerpt = excerpt statement.text ∧
          DdlObject.kindOf? statement.text = some object ∧
          ∃ flags start,
            readHead? object (cells statement.text) = some (flags, start) ∧
            MissesName start) := by
  refine ⟨fun first second => creates_unique, fun object =>
    (beside_stripComments text).readHead?, ?_⟩
  intro script result diagnostic member object reason
  obtain ⟨statement, known, recognised, kind, rejected, line, shown⟩ :=
    exists_of_mem_diagnostics result member
  have created := DdlObject.creates_of_kindOf? kind
  obtain ⟨flags, -, start, -, head⟩ :=
    (beside_stripComments statement.text).readHead? created
  rw [reason] at rejected
  obtain ⟨rfl, misses⟩ := missesName_of_readName
    (DdlObject.readName_of_missingName head rejected)
  exact ⟨statement, known, line, shown, kind, flags, start, head, misses⟩

/-- Comments that are glued to the words of a head. -/
theorem recognised_statements_have_head_gluedView :
    let text : Text := "CREATE/* a */OR--b\nREPLACE/**/SECURE\u00a0VIEW/**/(id)"
    creates .view (stripComments text) = true ∧
      ∃ flags rest start,
        beforeKind? .view (stripComments text) = some (flags, rest) ∧
        readHead? .view (cells text) = some (flags, start) := by
  intro text
  have created : creates .view (stripComments text) = true := by decide
  exact ⟨created, (recognised_statements_have_head text).2.1 .view created⟩

end Script

end Snowform
