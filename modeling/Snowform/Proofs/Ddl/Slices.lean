import Snowform.Ddl.Script
import Snowform.Proofs.Ddl.Lookalikes
import Snowform.Proofs.Ddl.References

/-!
# Slices of statements

The readers of a statement find its parts in the masked statement, and take
them from the statement at the same byte offsets.  `Sliced` lists all parts
that are taken so.

Each of them lies in place: its offsets are offsets of the statement, and no
character is cut there.  So a statement that is neither read nor rejected
breaks at an entry of a column list, whose reference a long s introduces.
-/

namespace Snowform

open Text Lexical

/--
A part of the masked statement whose offsets are places of the statement,
between which its characters stand.
-/
def InPlace (statement : Text) (part : List Cell) : Prop :=
  ∃ before after text, cells statement = before ++ (part ++ after) ∧
    sourceOf part = .ok text ∧
    slice? (shownBytes before) (shownBytes before + shownBytes part)
      statement = some text

/-- Whatever can be cut out of the masked statement is in place. -/
theorem InPlace.of_cutsOut {statement : Text} {part : List Cell}
    (cuts : CutsOut (cells statement) part) : InPlace statement part := by
  obtain ⟨after, ⟨before, parts, apart⟩, second⟩ := cuts
  have whole := whole_cells statement
  rw [parts] at whole
  obtain ⟨left, right⟩ := whole.of_append (whole.not_startsInside apart)
  have inside : Whole part := by
    have known := right.upTo second
    rwa [upTo_append] at known
  obtain ⟨front, leading, frontSize⟩ := left.exists_source
  obtain ⟨text, source, size⟩ := inside.exists_source
  obtain ⟨back, trailing, -⟩ := (right.of_leaves second).exists_source
  have joined := source?_append leading (source?_append source trailing)
  rw [← parts, source?_cells] at joined
  cases joined
  refine ⟨before, after, text, parts, ?_, ?_⟩
  · rw [sourceOf, source]
  · rw [frontSize, size, ← List.append_assoc]
    exact slice?_byteSize front text back

/-! ## Places of a statement -/

/-- A statement names its object between two places. -/
def Named (object : ObjectKind) (statement : Text) (name : QualifiedName)
    (start rest : List Cell) : Prop :=
  ∃ flags, readHead? object (cells statement) = some (flags, start) ∧
    readName object start = .ok (name, rest)

/-- The columns of a table, in front of its clauses. -/
def Table.Listed (statement : Text) (name : QualifiedName)
    (inside tail : List Cell) : Prop :=
  ∃ start rest, Named .table statement name start rest ∧
    parenthesised? (skipBlanks rest) = some (inside, tail)

/-- The parameters of a procedure, in front of its clauses. -/
def Procedure.Listed (statement : Text) (name : QualifiedName)
    (inside tail : List Cell) : Prop :=
  ∃ start rest, Named .procedure statement name start rest ∧
    parenthesised? (rest.dropWhile (shows (· != '('))) = some (inside, tail)

/-- The body of a view, and what stands in front of its `AS`. -/
def View.Introduced (statement : Text)
    (start tail before body : List Cell) : Prop :=
  ∃ name rest columns, Named .view statement name start rest ∧
    View.readColumns rest = .ok (columns, tail) ∧
    findFirst asKeyword? [] tail = some (before, (), body)

section Places

variable {statement : Text} {name : QualifiedName} {start rest : List Cell}

/-- The cells of a name are cut out of the masked statement. -/
theorem Named.leaves {object : ObjectKind}
    (named : Named object statement name start rest) :
    Leaves (cells statement) start ∧ Leaves start rest := by
  obtain ⟨flags, head, read⟩ := named
  exact ⟨leaves_of_readHead? head, leaves_of_readName read⟩

/--
The list of a table is cut out of the masked statement, and the rest of it is
left.
-/
theorem Table.Listed.leaves {inside tail : List Cell}
    (listed : Table.Listed statement name inside tail) :
    CutsOut (cells statement) inside ∧ Leaves (cells statement) tail := by
  obtain ⟨start, rest, named, list⟩ := listed
  have leaves := (named.leaves.1.trans named.leaves.2).trans
    (leaves_skipBlanks rest)
  exact ⟨(cutsOut_of_parenthesised? list).behind leaves,
    leaves.trans (leaves_tail_of_parenthesised? list)⟩

/--
The parameters of a procedure are cut out of the masked statement, and the rest
of it is left.
-/
theorem Procedure.Listed.leaves {inside tail : List Cell}
    (listed : Procedure.Listed statement name inside tail) :
    CutsOut (cells statement) inside ∧ Leaves (cells statement) tail := by
  obtain ⟨start, rest, named, list⟩ := listed
  have leaves := (named.leaves.1.trans named.leaves.2).trans
    (leaves_dropWhile (· != '(') rest)
  exact ⟨(cutsOut_of_parenthesised? list).behind leaves,
    leaves.trans (leaves_tail_of_parenthesised? list)⟩

/--
The header of a view is cut out of the masked statement, and its query is left.
-/
theorem View.Introduced.leaves {tail before body : List Cell}
    (introduced : View.Introduced statement start tail before body) :
    CutsOut (cells statement) (upTo start (tail.drop before.length)) ∧
      Leaves (cells statement) body := by
  obtain ⟨name, rest, columns, named, read, found⟩ := introduced
  obtain ⟨here, leaves, rfl, word⟩ :=
    leaves_of_findFirst startsLoud_asKeyword? found
  have behind := (named.leaves.2.trans
    (View.leaves_of_readColumns read)).trans leaves
  exact ⟨CutsOut.of_leaves named.leaves.1 behind,
    (named.leaves.1.trans behind).trans (leaves_of_asKeyword? word)⟩

end Places

/-! ## Parts of a statement -/

/-- The parts of a masked statement that are taken from the statement. -/
inductive Sliced (statement : Text) : ObjectKind → List Cell → Prop where
  | name {object : ObjectKind} {flags : HeadFlags} {start : List Cell}
      (head : readHead? object (cells statement) = some (flags, start)) :
      Sliced statement object (nameCells start)
  | columns {name : QualifiedName} {inside tail : List Cell}
      (listed : Table.Listed statement name inside tail) :
      Sliced statement .table inside
  | tableComment {name : QualifiedName}
      {inside tail before clause after : List Cell}
      (listed : Table.Listed statement name inside tail)
      (found : findFirst commentClause? [] tail =
        some (before, clause, after)) :
      Sliced statement .table clause
  | clusterBy {name : QualifiedName}
      {inside tail before list after keys behind : List Cell}
      (listed : Table.Listed statement name inside tail)
      (found : findFirst Table.clusterBy? [] tail =
        some (before, list, after))
      (closed : parenthesised? list = some (keys, behind)) :
      Sliced statement .table keys
  | viewColumns {name : QualifiedName} {start rest inside tail : List Cell}
      (named : Named .view statement name start rest)
      (list : parenthesised? (skipBlanks rest) = some (inside, tail)) :
      Sliced statement .view inside
  | query {start tail before body : List Cell}
      (introduced : View.Introduced statement start tail before body) :
      Sliced statement .view (dropFinalBlanks body)
  | viewComment {start tail before body earlier clause after : List Cell}
      (introduced : View.Introduced statement start tail before body)
      (found : findFirst commentClause? []
        (upTo start (tail.drop before.length)) =
          some (earlier, clause, after)) :
      Sliced statement .view clause
  | parameters {name : QualifiedName} {inside tail : List Cell}
      (listed : Procedure.Listed statement name inside tail) :
      Sliced statement .procedure inside
  | returnType {name : QualifiedName} {inside tail body type : List Cell}
      {mode : Option ExecuteAs} {before : Nat}
      (listed : Procedure.Listed statement name inside tail)
      (found : Procedure.findBody? none [] tail = some (mode, before, body))
      (named : Procedure.returnType? (tail.take before) tail = some type) :
      Sliced statement .procedure type
  | body {name : QualifiedName} {inside tail body : List Cell}
      {mode : Option ExecuteAs} {before : Nat}
      (listed : Procedure.Listed statement name inside tail)
      (found : Procedure.findBody? none [] tail = some (mode, before, body)) :
      Sliced statement .procedure (dropFinalBlanks body)
  | procedureComment {name : QualifiedName}
      {inside tail body earlier clause after : List Cell}
      {mode : Option ExecuteAs} {before : Nat}
      (listed : Procedure.Listed statement name inside tail)
      (found : Procedure.findBody? none [] tail = some (mode, before, body))
      (comment : findFirst commentClause? [] (tail.take before) =
        some (earlier, clause, after)) :
      Sliced statement .procedure clause

namespace Sliced

variable {statement : Text}

/-- Whatever is taken from a statement can be cut out of its mask. -/
theorem cutsOut {object : ObjectKind} {part : List Cell}
    (sliced : Sliced statement object part) :
    CutsOut (cells statement) part := by
  cases sliced with
  | name head =>
      exact (cutsOut_takeWhile _ _).behind
        ((leaves_of_readHead? head).trans (leaves_skipBlanks _))
  | columns listed => exact listed.leaves.1
  | tableComment listed found =>
      exact (cutsOut_of_findFirst_commentClause? found).behind
        listed.leaves.2
  | clusterBy listed found closed =>
      exact (cutsOut_of_findFirst_clusterBy? found closed).behind
        listed.leaves.2
  | viewColumns named list =>
      exact (cutsOut_of_parenthesised? list).behind
        ((named.leaves.1.trans named.leaves.2).trans (leaves_skipBlanks _))
  | query introduced =>
      exact (cutsOut_dropFinalBlanks _).behind
        introduced.leaves.2
  | viewComment introduced found =>
      exact introduced.leaves.1.trans
        (cutsOut_of_findFirst_commentClause? found)
  | parameters listed => exact listed.leaves.1
  | returnType listed found named =>
      exact ((Procedure.headed_of_findBody? found).cutsOut_returnType?
        named).behind listed.leaves.2
  | body listed found =>
      exact (cutsOut_dropFinalBlanks _).behind
        (listed.leaves.2.trans
          (Procedure.headed_of_findBody? found).leaves)
  | procedureComment listed found comment =>
      exact ((Procedure.headed_of_findBody? found).cutsOut.trans
        (cutsOut_of_findFirst_commentClause? comment)).behind
          listed.leaves.2

/-- Every part of a statement that is read stands at its offsets. -/
theorem inPlace {object : ObjectKind} {part : List Cell}
    (sliced : Sliced statement object part) : InPlace statement part :=
  InPlace.of_cutsOut sliced.cutsOut

end Sliced

/-! ## Where statements break -/

theorem sourceOf_of_readSource {part : List Cell} {fault : Fault}
    (broken : readSource part = .error (.broken fault)) :
    sourceOf part = .error fault :=
  Reading.ofFault_eq_broken_iff.mp broken

theorem sourceOf_of_readName {object : ObjectKind} {list : List Cell}
    {fault : Fault} (broken : readName object list = .error (.broken fault)) :
    sourceOf (nameCells list) = .error fault := by
  rw [readName_eq] at broken
  split at broken
  next => cases broken
  next =>
    rcases bind_eq_error_iff.mp broken with source | ⟨text, -, rest⟩
    · exact sourceOf_of_readSource source
    · dsimp only at rest
      split at rest <;> cases rest

/-- A comment that faults has a clause whose source faults. -/
theorem exists_clause_of_findComment {list : List Cell} {fault : Fault}
    (broken : findComment list = .error fault) :
    ∃ before clause after,
      findFirst commentClause? [] list = some (before, clause, after) ∧
      sourceOf clause = .error fault := by
  rw [findComment] at broken
  split at broken
  next => cases broken
  next before clause after found =>
    rcases bind_eq_error_iff.mp broken with source | ⟨text, -, rest⟩
    · exact ⟨before, clause, after, found, source⟩
    · cases rest

/-- Clustering keys that fault have a list whose source faults. -/
theorem exists_keys_of_readClusterBy {list : List Cell} {fault : Fault}
    (broken : Table.readClusterBy list = .error fault) :
    ∃ before start after keys behind,
      findFirst Table.clusterBy? [] list = some (before, start, after) ∧
      parenthesised? start = some (keys, behind) ∧
      sourceOf keys = .error fault := by
  rw [Table.readClusterBy] at broken
  split at broken
  next => cases broken
  next keys behind found =>
    obtain ⟨⟨before, start, after⟩, first, closed⟩ :=
      Option.bind_eq_some_iff.mp found
    rcases bind_eq_error_iff.mp broken with source | ⟨text, -, rest⟩
    · exact ⟨before, start, after, keys, behind, first, closed, source⟩
    · cases rest

/-- The column list of a table, as it is written in the statement. -/
def Table.HasList (statement : Text) (name : QualifiedName)
    (written : Text) : Prop :=
  ∃ inside tail, Listed statement name inside tail ∧
    sourceOf inside = .ok written

/-- A column list with an entry whose reference a long s introduces. -/
def Table.HasLongReference (statement : Text) : Prop :=
  ∃ name written, HasList statement name written ∧
    ∃ entry ∈ splitCommas (stripComments written),
      Snowform.HasLongReference entry

/-- An entry of a list has no blanks around it. -/
theorem trim_of_mem_splitCommas {text entry : Text}
    (member : entry ∈ splitCommas text) : trim entry = entry := by
  obtain ⟨piece, -, rfl⟩ := List.mem_map.mp (List.mem_of_mem_filter member)
  exact trim_trim piece

section Breaking

variable {statement : Text} {fault : Fault}

/-- A part of the statement whose characters cannot be read. -/
def BreaksAtPart (object : ObjectKind) (statement : Text)
    (fault : Fault) : Prop :=
  ∃ part, Sliced statement object part ∧ sourceOf part = .error fault

/-- A table faults at one of its parts or at a long reference. -/
theorem Table.breaksAtPart_of_read
    (broken : Table.read statement = .error (.broken fault)) :
    BreaksAtPart .table statement fault ∨
      Table.HasLongReference statement := by
  rw [Table.read] at broken
  obtain ⟨⟨flags, start⟩, head, broken⟩ :=
    Reading.exists_of_require_bind broken
  rcases bind_eq_error_iff.mp broken with name | ⟨⟨name, rest⟩, read, broken⟩
  · exact Or.inl ⟨_, .name head, sourceOf_of_readName name⟩
  have named : Named .table statement name start rest := ⟨flags, head, read⟩
  dsimp only at broken
  split at broken
  next =>
    obtain ⟨⟨inside, tail⟩, list, broken⟩ :=
      Reading.exists_of_require_bind broken
    have listed : Table.Listed statement name inside tail :=
      ⟨start, rest, named, list⟩
    rcases bind_eq_error_iff.mp broken with source | ⟨written, source, broken⟩
    · exact Or.inl ⟨_, .columns listed, sourceOf_of_readSource source⟩
    rcases bind_eq_error_iff.mp broken with entries | ⟨contents, -, broken⟩
    · obtain ⟨entry, member, long⟩ :=
        Contents.exists_hasLongReference_of_read
          (Reading.ofFault_eq_broken_iff.mp entries)
      rw [trim_of_mem_splitCommas member] at long
      exact Or.inr ⟨name, written, ⟨inside, tail, listed,
        Reading.ofFault_eq_ok_iff.mp source⟩, entry, member, long⟩
    rcases bind_eq_error_iff.mp broken with comment | ⟨comment, -, broken⟩
    · obtain ⟨before, clause, after, found, source⟩ :=
        exists_clause_of_findComment (Reading.ofFault_eq_broken_iff.mp comment)
      exact Or.inl ⟨_, .tableComment listed found, source⟩
    rcases bind_eq_error_iff.mp broken with keys | ⟨keys, -, broken⟩
    · obtain ⟨before, list, after, keys, behind, found, closed, source⟩ :=
        exists_keys_of_readClusterBy (Reading.ofFault_eq_broken_iff.mp keys)
      exact Or.inl ⟨_, .clusterBy listed found closed, source⟩
    · cases broken
  next => cases broken

theorem View.breaksAtPart_of_readColumns {name : QualifiedName}
    {start rest : List Cell} (named : Named .view statement name start rest)
    (broken : View.readColumns rest = .error (.broken fault)) :
    BreaksAtPart .view statement fault := by
  rw [View.readColumns] at broken
  dsimp only at broken
  split at broken
  next =>
    obtain ⟨⟨inside, tail⟩, list, broken⟩ :=
      Reading.exists_of_require_bind broken
    rcases bind_eq_error_iff.mp broken with source | ⟨written, -, broken⟩
    · exact ⟨_, .viewColumns named list, sourceOf_of_readSource source⟩
    · cases broken
  next => cases broken

/-- A view faults at one of its parts. -/
theorem View.breaksAtPart_of_read
    (broken : View.read statement = .error (.broken fault)) :
    BreaksAtPart .view statement fault := by
  rw [View.read] at broken
  obtain ⟨⟨flags, start⟩, head, broken⟩ :=
    Reading.exists_of_require_bind broken
  rcases bind_eq_error_iff.mp broken with name | ⟨⟨name, rest⟩, read, broken⟩
  · exact ⟨_, .name head, sourceOf_of_readName name⟩
  have named : Named .view statement name start rest := ⟨flags, head, read⟩
  rcases bind_eq_error_iff.mp broken with
    columns | ⟨⟨columns, tail⟩, listed, broken⟩
  · exact View.breaksAtPart_of_readColumns named columns
  obtain ⟨⟨before, _, body⟩, found, broken⟩ :=
    Reading.exists_of_require_bind broken
  have introduced : View.Introduced statement start tail before body :=
    ⟨name, rest, columns, named, listed, found⟩
  rcases bind_eq_error_iff.mp broken with source | ⟨query, -, broken⟩
  · exact ⟨_, .query introduced, sourceOf_of_readSource source⟩
  dsimp only at broken
  split at broken
  next => cases broken
  next =>
    rcases bind_eq_error_iff.mp broken with comment | ⟨comment, -, broken⟩
    · obtain ⟨earlier, clause, after, found, source⟩ :=
        exists_clause_of_findComment (Reading.ofFault_eq_broken_iff.mp comment)
      exact ⟨_, .viewComment introduced found, source⟩
    · cases broken

/-- A procedure faults at one of its parts. -/
theorem Procedure.breaksAtPart_of_read
    (broken : Procedure.read statement = .error (.broken fault)) :
    BreaksAtPart .procedure statement fault := by
  rw [Procedure.read] at broken
  obtain ⟨⟨flags, start⟩, head, broken⟩ :=
    Reading.exists_of_require_bind broken
  rcases bind_eq_error_iff.mp broken with name | ⟨⟨name, rest⟩, read, broken⟩
  · exact ⟨_, .name head, sourceOf_of_readName name⟩
  have named : Named .procedure statement name start rest := ⟨flags, head, read⟩
  dsimp only at broken
  split at broken
  next => cases broken
  next =>
    obtain ⟨⟨inside, tail⟩, list, broken⟩ :=
      Reading.exists_of_require_bind broken
    have listed : Procedure.Listed statement name inside tail :=
      ⟨start, rest, named, list⟩
    rcases bind_eq_error_iff.mp broken with source | ⟨parameters, -, broken⟩
    · exact ⟨_, .parameters listed, sourceOf_of_readSource source⟩
    obtain ⟨⟨mode, before, body⟩, found, broken⟩ :=
      Reading.exists_of_require_bind broken
    rcases bind_eq_error_iff.mp broken with type | ⟨type, -, broken⟩
    · cases returned : returnType? (tail.take before) tail with
      | none =>
          rw [returned] at type
          cases type
      | some part =>
          rw [returned, Option.mapM_some] at type
          exact ⟨part, .returnType listed found returned,
            sourceOf_of_readSource (map_eq_error_iff.mp type)⟩
    rcases bind_eq_error_iff.mp broken with source | ⟨written, -, broken⟩
    · exact ⟨_, .body listed found, sourceOf_of_readSource source⟩
    rcases bind_eq_error_iff.mp broken with comment | ⟨comment, -, broken⟩
    · obtain ⟨earlier, clause, after, clauseFound, source⟩ :=
        exists_clause_of_findComment (Reading.ofFault_eq_broken_iff.mp comment)
      exact ⟨_, .procedureComment listed found clauseFound, source⟩
    · cases broken

/--
No part of a statement faults, since its offsets are places of the statement.
-/
theorem not_breaksAtPart {object : ObjectKind} :
    ¬ BreaksAtPart object statement fault := by
  rintro ⟨part, sliced, broken⟩
  obtain ⟨before, after, text, parts, read, slice⟩ := sliced.inPlace
  rw [read] at broken
  cases broken

/-- A statement breaks only at an entry that a long s spoils. -/
theorem DdlObject.hasLongReference_of_read {object : ObjectKind}
    (broken : DdlObject.read object statement = .error (.broken fault)) :
    object = .table ∧ Table.HasLongReference statement := by
  cases object with
  | table =>
      rcases Table.breaksAtPart_of_read (map_eq_error_iff.mp broken) with
        part | long
      · exact absurd part not_breaksAtPart
      · exact ⟨rfl, long⟩
  | view =>
      exact absurd (View.breaksAtPart_of_read (map_eq_error_iff.mp broken))
        not_breaksAtPart
  | procedure =>
      exact absurd (Procedure.breaksAtPart_of_read (map_eq_error_iff.mp broken))
        not_breaksAtPart

end Breaking

end Snowform
