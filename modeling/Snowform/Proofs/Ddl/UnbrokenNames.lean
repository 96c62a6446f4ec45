import Snowform.Proofs.Ddl.Counting
import Snowform.Proofs.Ddl.Reading

/-!
# Names of constraints behind columns

Behind a column words are separated by blanks wherever they stand, so a name
between double quotes that has a blank is more than one word.  A constraint
behind a column therefore never gets a name with a blank in it.
-/

namespace Snowform

open Text Lexical

/-- A text without blanks. -/
def IsUnbroken (text : Text) : Prop :=
  ∀ character ∈ text, isBlank character = false

theorem mem_replaceFrom {pattern replacement : Text} {skip : Nat}
    {text : Text} {character : Char}
    (member : character ∈ replaceFrom pattern replacement skip text) :
    character ∈ replacement ∨ character ∈ text := by
  induction text generalizing skip with
  | nil => cases member
  | cons first rest ih =>
      have later : ∀ skip, character ∈ replaceFrom pattern replacement skip rest →
          character ∈ replacement ∨ character ∈ first :: rest :=
        fun skip member => (ih member).imp_right (List.mem_cons_of_mem first)
      cases skip with
      | succ remaining => exact later remaining member
      | zero =>
          rw [replaceFrom] at member
          split at member
          · rcases List.mem_append.mp member with here | behind
            · exact .inl here
            · exact later _ behind
          · rcases List.mem_cons.mp member with rfl | behind
            · exact .inr List.mem_cons_self
            · exact later 0 behind

theorem mem_of_mem_trim {text : Text} {character : Char}
    (member : character ∈ trim text) : character ∈ text := by
  have parts := leading_trim_trailing text
  rw [← parts]
  exact List.mem_append_right _ (List.mem_append_left _ member)

theorem mem_of_mem_unquote {text : Text} {character : Char}
    (member : character ∈ unquote text) : character = '"' ∨ character ∈ text := by
  rw [unquote] at member
  split at member
  · rcases mem_replaceFrom member with quote | inside
    · exact .inl (List.mem_singleton.mp quote)
    · have kept := List.mem_of_mem_drop (List.dropLast_subset _ inside)
      exact .inr (mem_of_mem_trim kept)
  · exact .inr (mem_of_mem_trim (List.mem_of_mem_filter member))

theorem isUnbroken_unquote {text : Text} (unbroken : IsUnbroken text) :
    IsUnbroken (unquote text) := by
  intro character member
  rcases mem_of_mem_unquote member with rfl | inside
  · decide
  · exact unbroken character inside

namespace Column.Progress

/-- Names without blanks, the one that waits for use included. -/
structure IsUnbroken (progress : Progress) : Prop where
  pending : ∀ name ∈ progress.pendingName, Snowform.IsUnbroken name
  named : ∀ constraint ∈ progress.entry.constraints,
    ∀ name ∈ constraint.name, Snowform.IsUnbroken name

theorem IsUnbroken.addConstraint {progress : Progress}
    (unbroken : progress.IsUnbroken) (kind : ConstraintKind)
    (references : Option ForeignKeyTarget) :
    (progress.addConstraint kind references).IsUnbroken where
  pending := nofun
  named := List.forall_mem_append.mpr
    ⟨unbroken.named, List.forall_mem_singleton.mpr unbroken.pending⟩

theorem IsUnbroken.readOther {progress : Progress}
    (unbroken : progress.IsUnbroken) (word : Text) (others : List Text) :
    (progress.readOther word others).1.IsUnbroken := by
  rw [Progress.readOther]
  split
  next changed both read =>
    rw [readFlag?] at read
    split at read
    next => cases read
    next last earlier reversed =>
      obtain ⟨⟨flags, later⟩, -, same⟩ := Option.map_eq_some_iff.mp read
      cases same
      have all := unbroken.named
      rw [List.reverse_eq_cons_iff.mp reversed, List.forall_mem_append,
        List.forall_mem_singleton] at all
      exact ⟨unbroken.pending, List.forall_mem_append.mpr
        ⟨all.1, List.forall_mem_singleton.mpr all.2⟩⟩
  next => exact ⟨unbroken.pending, unbroken.named⟩

/-- An option gives names without blanks if its words have none. -/
theorem IsUnbroken.readOption {progress changed : Progress}
    (unbroken : progress.IsUnbroken) {word : Text} {others : List Text}
    (all : ∀ word ∈ others, Snowform.IsUnbroken word) {used : Nat}
    (read : progress.readOption word others = .ok (changed, used)) :
    changed.IsUnbroken := by
  -- The result of every branch is looked at, so the statement is about results.
  suffices every : ∀ parts, progress.readOption word others = .ok parts →
      parts.1.IsUnbroken from every _ read
  have changing : ∀ (change : Column → Column) (used : Nat) parts,
      Except.ok (ε := Fault) (progress.changeColumn change, used) = .ok parts →
        parts.1.IsUnbroken := by
    rintro change used parts ⟨⟩
    exact ⟨unbroken.pending, unbroken.named⟩
  have adding : ∀ (kind : ConstraintKind)
      (references : Option ForeignKeyTarget) (used : Nat) parts,
      Except.ok (ε := Fault) (progress.addConstraint kind references, used) =
        .ok parts → parts.1.IsUnbroken := by
    rintro kind references used parts ⟨⟩
    exact unbroken.addConstraint kind references
  rw [Progress.readOption]
  dsimp only
  let holds (result : Except Fault (Progress × Nat)) : Prop :=
    ∀ parts, result = .ok parts → parts.1.IsUnbroken
  refine iteInduction (motive := holds) (fun _ => changing _ _) fun _ => ?_
  refine iteInduction (motive := holds) (fun _ => changing _ _) fun _ => ?_
  refine iteInduction (motive := holds) (fun _ => changing _ _) fun _ => ?_
  refine iteInduction (motive := holds) (fun _ => changing _ _) fun _ => ?_
  refine iteInduction (motive := holds) (fun _ => ?_) fun _ => ?_
  · rintro parts ⟨⟩
    exact unbroken
  refine iteInduction (motive := holds) (fun _ => ?_) fun _ => ?_
  · rintro parts ⟨⟩
    refine ⟨?_, unbroken.named⟩
    intro name pending
    obtain ⟨first, head, rfl⟩ := Option.map_eq_some_iff.mp pending
    exact isUnbroken_unquote (all first (List.mem_of_mem_head? head))
  refine iteInduction (motive := holds) (fun _ => adding _ _ _) fun _ => ?_
  refine iteInduction (motive := holds) (fun _ => adding _ _ _) fun _ => ?_
  refine iteInduction (motive := holds) (fun _ => ?_) fun _ => ?_
  · intro parts result
    obtain ⟨found, -, rest⟩ := bind_eq_ok_iff.mp result
    cases found with
    | none =>
        cases rest
        exact unbroken
    | some target => exact adding _ _ _ parts rest
  · rintro parts ⟨⟩
    exact unbroken.readOther word others

/-- Options give names without blanks if their words have none. -/
theorem IsUnbroken.readOptions {progress changed : Progress}
    (unbroken : progress.IsUnbroken) {list : List Text}
    (all : ∀ word ∈ list, Snowform.IsUnbroken word) {used : Nat}
    (read : progress.readOptions used list = .ok changed) :
    changed.IsUnbroken := by
  induction list generalizing progress used with
  | nil =>
      cases read
      exact unbroken
  | cons word others ih =>
      rw [List.forall_mem_cons] at all
      cases used with
      | succ used => exact ih unbroken all.2 read
      | zero =>
          obtain ⟨⟨next, count⟩, option, rest⟩ := bind_eq_ok_iff.mp read
          exact ih (unbroken.readOption all.2 option) all.2 rest

end Column.Progress

/-- No constraint behind a column gets a name with a blank. -/
theorem Column.isUnbroken_of_read? {entry : Text} {read : ColumnEntry}
    (found : Column.read? entry = .ok (some read)) :
    ∀ constraint ∈ read.constraints, ∀ name ∈ constraint.name,
      IsUnbroken name := by
  rw [read?] at found
  split at found
  next name first others parts =>
    obtain ⟨progress, options, rest⟩ := bind_eq_ok_iff.mp found
    cases rest
    have all : ∀ word ∈ others, IsUnbroken word := by
      intro word member
      rw [entryWords] at parts
      dsimp only at parts
      split at parts
      · cases parts
      · have behind := (List.cons.inj parts).2
        have inside := behind ▸ List.mem_cons_of_mem first member
        exact (isWord_of_mem_words inside).2
    have start : Progress.IsUnbroken
        ⟨⟨{ name := unquote name, dataType := (readType first others).1 },
          [], []⟩, none⟩ :=
      ⟨by simp, by simp⟩
    exact (start.readOptions (fun word member => all word
      ((readType_suffix first others).subset member)) options).named
  next => cases found

end Snowform
