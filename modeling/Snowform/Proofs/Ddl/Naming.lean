import Snowform.Ddl.Script
import Snowform.Proofs.Ddl.TableReading

/-!
# Objects have names

Whatever is written behind the keyword of an object, the object that is read
has a name with at least one character.  Its schema and its database may be
there and empty, and so may be the name of a table that is only referred to.
-/

namespace Snowform

open Text Lexical

/-! ## Statements -/

/-- A name that is read is not empty. -/
theorem name_ne_nil_of_readName {object : ObjectKind} {list rest : List Cell}
    {name : QualifiedName} (result : readName object list = .ok (name, rest)) :
    name.name ≠ [] := by
  rw [readName] at result
  dsimp only at result
  split at result
  next => cases result
  next =>
    rw [bind_eq_ok_iff] at result
    obtain ⟨written, -, result⟩ := result
    split at result
    next => cases result
    next named =>
      cases result
      exact fun empty => named (List.isEmpty_iff.mpr empty)

theorem View.exists_readName {statement : Text} {view : View}
    (result : read statement = .ok view) :
    ∃ start rest, readName .view start = .ok (view.name, rest) := by
  rw [read, bind_eq_ok_iff] at result
  obtain ⟨⟨flags, start⟩, -, result⟩ := result
  rw [bind_eq_ok_iff] at result
  obtain ⟨⟨name, rest⟩, named, result⟩ := result
  rw [bind_eq_ok_iff] at result
  obtain ⟨⟨columns, tail⟩, -, result⟩ := result
  rw [bind_eq_ok_iff] at result
  obtain ⟨⟨before, _, body⟩, -, result⟩ := result
  rw [bind_eq_ok_iff] at result
  obtain ⟨query, -, result⟩ := result
  dsimp only at result
  split at result
  next => cases result
  next =>
    rw [bind_eq_ok_iff] at result
    obtain ⟨comment, -, result⟩ := result
    cases result
    exact ⟨start, rest, named⟩

theorem Procedure.exists_readName {statement : Text} {procedure : Procedure}
    (result : read statement = .ok procedure) :
    ∃ start rest, readName .procedure start = .ok (procedure.name, rest) := by
  rw [read, bind_eq_ok_iff] at result
  obtain ⟨⟨flags, start⟩, -, result⟩ := result
  rw [bind_eq_ok_iff] at result
  obtain ⟨⟨name, rest⟩, named, result⟩ := result
  dsimp only at result
  split at result
  next => cases result
  next =>
    rw [bind_eq_ok_iff] at result
    obtain ⟨⟨inside, tail⟩, -, result⟩ := result
    rw [bind_eq_ok_iff] at result
    obtain ⟨list, -, result⟩ := result
    rw [bind_eq_ok_iff] at result
    obtain ⟨⟨mode, before, body⟩, -, result⟩ := result
    rw [bind_eq_ok_iff] at result
    obtain ⟨returnType, -, result⟩ := result
    rw [bind_eq_ok_iff] at result
    obtain ⟨written, -, result⟩ := result
    rw [bind_eq_ok_iff] at result
    obtain ⟨comment, -, result⟩ := result
    cases result
    exact ⟨start, rest, named⟩

/-- An object that is read has a name. -/
theorem DdlObject.name_ne_nil_of_read {object : ObjectKind} {statement : Text}
    {created : DdlObject} {notes : List Note}
    (result : read object statement = .ok (created, notes)) :
    created.name.name ≠ [] := by
  cases object with
  | table =>
      rw [read, map_eq_ok_iff] at result
      obtain ⟨⟨definition, taken⟩, found, same⟩ := result
      cases same
      obtain ⟨_, _, _, _, _, _, _, readAs⟩ := Table.exists_readAs found
      exact name_ne_nil_of_readName readAs.name
  | view =>
      rw [read, map_eq_ok_iff] at result
      obtain ⟨definition, found, same⟩ := result
      cases same
      obtain ⟨_, _, named⟩ := View.exists_readName found
      exact name_ne_nil_of_readName named
  | procedure =>
      rw [read, map_eq_ok_iff] at result
      obtain ⟨definition, found, same⟩ := result
      cases same
      obtain ⟨_, _, named⟩ := Procedure.exists_readName found
      exact name_ne_nil_of_readName named

/-! ## Scripts -/

namespace Script

/-- All objects of a script have names. -/
def NamesObjects (script : Script) : Prop :=
  ∀ object ∈ script.objects, object.name.name ≠ []

/-- What one statement leaves has a name. -/
theorem namesObjects_of_ofStatement {statement : Statement} {script : Script}
    (result : ofStatement statement = .ok script) : script.NamesObjects := by
  rw [ofStatement] at result
  split at result
  next =>
    cases result
    exact List.forall_mem_nil _
  next =>
    split at result
    next created notes found =>
      cases result
      exact List.forall_mem_singleton.mpr (DdlObject.name_ne_nil_of_read found)
    next =>
      cases result
      exact List.forall_mem_nil _
    next => cases result

/-- Everything that statements leave has a name. -/
theorem namesObjects_of_ofStatements {statements : List Statement}
    {script : Script} (result : ofStatements statements = .ok script) :
    script.NamesObjects := by
  induction statements generalizing script with
  | nil =>
      cases result
      exact List.forall_mem_nil _
  | cons statement others ih =>
      rw [ofStatements, bind_eq_ok_iff] at result
      obtain ⟨first, here, result⟩ := result
      rw [bind_eq_ok_iff] at result
      obtain ⟨second, behind, result⟩ := result
      cases result
      exact List.forall_mem_append.mpr
        ⟨namesObjects_of_ofStatement here, ih behind⟩

/-- Every object that is read from a script has a name. -/
theorem namesObjects_of_read {text : Text} {script : Script}
    (result : read text = .ok script) : script.NamesObjects :=
  namesObjects_of_ofStatements result

end Script

end Snowform
