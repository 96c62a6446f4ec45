import Snowform.Proofs.Ddl.SpacedReferences

/-!
# Column lists with gaps

The two texts of a list of marks are read alike, entry by entry.  Columns come
out equal.  Constraints come out equal but for the names they list and the
tables they reference, which hold the gaps that were written inside of them.
-/

namespace Snowform

open Text Lexical

/-! ## What stays the same -/

theorem SameNames.refl (marks : List Mark) (names : List Text) :
    SameNames marks names names :=
  List.forall₂_same.mpr fun _ _ => Or.inl rfl

theorem SameName.refl_option (marks : List Mark) (name : Option Text) :
    Option.Rel (SameName marks) name name := by
  cases name with
  | none => exact .none
  | some name => exact .some (Or.inl rfl)

theorem SameQualifiedName.refl (marks : List Mark) (name : QualifiedName) :
    SameQualifiedName marks name name where
  database := SameName.refl_option marks name.database
  schema := SameName.refl_option marks name.schema
  name := Or.inl rfl

/-- Targets of foreign keys, which are the same name by name. -/
structure SameTarget (marks : List Mark)
    (target other : ForeignKeyTarget) : Prop where
  table : SameQualifiedName marks target.table other.table
  columns : SameNames marks target.columns other.columns

/-- Terms that are the same but for the expression of a check. -/
structure SameTerms (marks : List Mark)
    (terms other : ConstraintTerms) : Prop where
  kind : terms.kind = other.kind
  columns : SameNames marks terms.columns other.columns
  flags : terms.flags = other.flags
  references : Option.Rel (SameTarget marks) terms.references other.references

theorem SameTerms.refl (marks : List Mark) (terms : ConstraintTerms) :
    SameTerms marks terms terms where
  kind := rfl
  columns := SameNames.refl marks terms.columns
  flags := rfl
  references := by
    cases terms.references with
    | none => exact .none
    | some target => exact .some {
        table := SameQualifiedName.refl marks target.table
        columns := SameNames.refl marks target.columns }

/-- Constraints as they are written, with the same terms and one name. -/
structure SameDraft (marks : List Mark)
    (draft other : DraftConstraint) : Prop where
  name : draft.name = other.name
  terms : SameTerms marks draft.toConstraintTerms other.toConstraintTerms

/-- Constraints with the same terms and one name. -/
structure SameConstraint (marks : List Mark)
    (constraint other : Constraint) : Prop where
  name : constraint.name = other.name
  terms : SameTerms marks constraint.toConstraintTerms other.toConstraintTerms

/-! ## Constraints -/

/-- The terms of a constraint name the same columns in either spacing. -/
theorem sameTerms_ofList {list marks : List Mark} (kind : ConstraintKind)
    (inside : list <:+: marks) :
    SameTerms marks (ConstraintTerms.ofList kind (rendered .narrow list))
      (ConstraintTerms.ofList kind (rendered .wide list)) := by
  have columns := (identifierList_rendered list).mono inside
  cases kind with
  | check => exact ⟨rfl, .nil, rfl, .none⟩
  | primaryKey => exact ⟨rfl, columns, rfl, .none⟩
  | foreignKey => exact ⟨rfl, columns, rfl, .none⟩
  | unique => exact ⟨rfl, columns, rfl, .none⟩

/-- A referenced table is read alike in either spacing. -/
theorem ReferenceMarks.Inside.sameTarget {marks : List Mark}
    {parts : ReferenceMarks} (inside : parts.Inside marks) :
    SameTarget marks (parts.read .narrow).1 (parts.read .wide).1 where
  table := (sameQualifiedName_rendered parts.table).mono inside.1
  columns := (identifierList_rendered parts.columns).mono inside.2

/-- What lies in a part of the marks lies in the marks. -/
theorem ReferenceMarks.Inside.mono {part marks : List Mark}
    {parts : ReferenceMarks} (inside : parts.Inside part)
    (within : part <:+: marks) : parts.Inside marks :=
  ⟨inside.1.trans within, inside.2.trans within⟩

/-- Targets that are alike within a part are alike within the whole. -/
theorem SameTarget.mono {part marks : List Mark}
    {target other : ForeignKeyTarget} (same : SameTarget part target other)
    (inside : part <:+: marks) : SameTarget marks target other where
  table := same.table.mono inside
  columns := same.columns.mono inside

theorem SameTarget.mono_option {part marks : List Mark}
    (inside : part <:+: marks) {target other : Option ForeignKeyTarget}
    (same : Option.Rel (SameTarget part) target other) :
    Option.Rel (SameTarget marks) target other := by
  cases same with
  | none => exact .none
  | some known => exact .some (known.mono inside)

/-- The kind and the list of a constraint, and the text behind the list. -/
def constraintParts? (text : Text) : Option (ConstraintTerms × Text) :=
  readConstraintKind? text >>= fun (kind, list) =>
    (parenthesised? list).map fun (inside, tail) =>
      (ConstraintTerms.ofList kind inside, tail)

/-- A constraint whose list has been read, with its reference and flags. -/
def finishConstraint? (name : Option Text) (terms : ConstraintTerms)
    (tail : Text) : Except Fault (Option DraftConstraint) :=
  if terms.kind = .foreignKey then
    (readReferences? tail).map (Option.map fun (target, rest) =>
      { terms with
        references := some target
        flags := terms.flags.readAll (words rest)
        name := name })
  else
    .ok (some { terms with
      flags := terms.flags.readAll (words tail)
      name := name })

/-- An entry is read as its name, its terms and what follows the list. -/
theorem readConstraint?_eq (entry : Text) :
    readConstraint? entry =
      (constraintParts? (readConstraintName (trim entry)).2).elim (.ok none)
        fun (terms, tail) =>
          finishConstraint? (readConstraintName (trim entry)).1 terms tail := by
  rw [readConstraint?, constraintParts?]
  dsimp only
  cases readConstraintKind? (readConstraintName (trim entry)).2 with
  | none => rfl
  | some found =>
      obtain ⟨kind, list⟩ := found
      simp only [Option.bind_eq_bind, Option.bind_some]
      cases parenthesised? list with
      | none => rfl
      | some parts =>
          obtain ⟨inside, tail⟩ := parts
          simp only [Option.bind_some, Option.map_some, Option.elim_some,
            Option.pure_def]
          rw [finishConstraint?]
          split
          next =>
            cases readReferences? tail with
            | error fault => rfl
            | ok answer => cases answer <;> rfl
          next => rfl

/-- A constraint is finished alike in either spacing. -/
theorem finishConstraint?_rendered {list tail marks : List Mark}
    (name : Option Text) (kind : ConstraintKind) (inside : list <:+: marks)
    (behind : tail <:+: marks) :
    Agree (Option.Rel (SameDraft marks))
      (finishConstraint? name
        (ConstraintTerms.ofList kind (rendered .narrow list))
        (rendered .narrow tail))
      (finishConstraint? name
        (ConstraintTerms.ofList kind (rendered .wide list))
        (rendered .wide tail)) := by
  have same := sameTerms_ofList kind inside
  by_cases foreign :
    (ConstraintTerms.ofList kind (rendered .narrow list)).kind = .foreignKey
  · rw [finishConstraint?, finishConstraint?, if_pos foreign,
      if_pos (same.kind.symm.trans foreign)]
    obtain ⟨answer, within, read⟩ := exists_readReferences? tail
    rw [read, read]
    cases answer with
    | error fault => exact .failed fault
    | ok found =>
        cases found with
        | none => exact .read .none
        | some parts =>
            have target := (within parts rfl).mono behind
            exact .read (.some {
              name := rfl
              terms := {
                kind := same.kind
                columns := same.columns
                flags := by
                  dsimp only [ReferenceMarks.read]
                  rw [same.flags, words_rendered .narrow .wide]
                references := .some target.sameTarget } })
  · rw [finishConstraint?, finishConstraint?, if_neg foreign,
      if_neg (same.kind ▸ foreign)]
    exact .read (.some {
      name := rfl
      terms := {
        kind := same.kind
        columns := same.columns
        flags := by
          dsimp only
          rw [same.flags, words_rendered .narrow .wide]
        references := same.references } })

/-- Drafts that are alike within a part are alike within the whole. -/
theorem SameDraft.mono {part marks : List Mark} {draft other : DraftConstraint}
    (same : SameDraft part draft other) (inside : part <:+: marks) :
    SameDraft marks draft other where
  name := same.name
  terms := {
    kind := same.terms.kind
    columns := same.terms.columns.mono inside
    flags := same.terms.flags
    references := SameTarget.mono_option inside same.terms.references }

/-- The two texts of an entry give the same constraint, or both give none. -/
theorem readConstraint?_rendered {marks : List Mark}
    (steady : Steady {} marks) :
    Agree (Option.Rel (SameDraft marks))
      (readConstraint? (rendered .narrow marks))
      (readConstraint? (rendered .wide marks)) := by
  obtain ⟨name, rest, suffix, named⟩ :=
    (steady.trimMarks rfl).exists_readConstraintName
  obtain ⟨answer, listed, opens⟩ := exists_readConstraintKind? rest
  have inside : rest <:+: marks := suffix.isInfix.trans (isInfix_trimMarks marks)
  rw [readConstraint?_eq, readConstraint?_eq, trim_rendered, trim_rendered,
    named, named]
  dsimp only
  rw [constraintParts?, constraintParts?, opens, opens]
  cases answer with
  | none => exact .read .none
  | some found =>
      obtain ⟨kind, list⟩ := found
      have listInside : list <:+: marks :=
        (listed kind list rfl).isInfix.trans inside
      simp only [Option.map_some, Prod.map, id, Option.bind_eq_bind,
        Option.bind_some, parenthesised?_rendered, Option.map_map]
      cases cut : parenthesised? list with
      | none => exact .read .none
      | some parts =>
          exact finishConstraint?_rendered name kind
            ((infix_of_parenthesised? cut).trans listInside)
            ((leaves_tail_of_parenthesised? cut).suffix.isInfix.trans listInside)

/-! ## Column lists -/

namespace Table.Contents

/-- What has been read of two column lists: the same but for the notes. -/
structure Same (marks : List Mark) (contents other : Contents) : Prop where
  columns : contents.columns = other.columns
  constraints : List.Forall₂ (SameConstraint marks)
    contents.constraints other.constraints

variable {marks : List Mark}

/-- Contents that are alike have used the same names. -/
theorem Same.names {contents other : Contents}
    (same : Same marks contents other) :
    contents.constraints.map (·.name) = other.constraints.map (·.name) := by
  obtain ⟨-, known⟩ := same
  generalize contents.constraints = constraints at known
  generalize other.constraints = others at known
  induction known with
  | nil => rfl
  | cons constraint others ih =>
      rw [List.map_cons, List.map_cons, constraint.name, ih]

/-- Drafts that are alike get the same names, as the same names are in use. -/
theorem Same.addConstraints {contents other : Contents}
    (same : Same marks contents other) (table : Text)
    {drafts others : List DraftConstraint}
    (alike : List.Forall₂ (SameDraft marks) drafts others) :
    Same marks (contents.addConstraints table drafts)
      (other.addConstraints table others) := by
  induction alike generalizing contents other with
  | nil => exact same
  | @cons draft another _ _ first rest ih =>
      have named : SameConstraint marks
          (draft.named table (contents.constraints.map (·.name)))
          (another.named table (other.constraints.map (·.name))) := by
        refine ⟨?_, first.terms⟩
        simp only [DraftConstraint.named, first.name, first.terms.kind,
          same.names]
      exact ih ⟨same.columns,
        List.rel_append same.constraints (.cons named .nil)⟩

theorem Same.addNote {contents other : Contents}
    (same : Same marks contents other) (note another : Note) :
    Same marks (contents.addNote note) (other.addNote another) :=
  ⟨same.columns, same.constraints⟩

/-- The same column is added to contents that are alike. -/
theorem Same.addColumn {contents other : Contents}
    (same : Same marks contents other) (table : Text) (entry : ColumnEntry) :
    Same marks (contents.addColumn table entry)
      (other.addColumn table entry) := by
  refine Same.addConstraints ?_ table
    (List.forall₂_same.mpr fun draft _ => ⟨rfl, SameTerms.refl marks _⟩)
  exact ⟨congrArg (· ++ [entry.column]) same.columns, same.constraints⟩

/-- An entry of a column is read alike in either spacing. -/
theorem Same.readColumn {contents other : Contents}
    (same : Same marks contents other) (table : Text) {entry : List Mark}
    (steady : Steady {} entry) :
    Agree (Same marks) (contents.readColumn table (rendered .narrow entry))
      (other.readColumn table (rendered .wide entry)) := by
  rw [Contents.readColumn, Contents.readColumn,
    Column.read?_rendered steady .narrow .wide]
  cases Column.read? (rendered .wide entry) with
  | error fault => exact .failed fault
  | ok found =>
      cases found with
      | none => exact .read (same.addNote _ _)
      | some column => exact .read (same.addColumn table column)

/--
Any entry is read alike in either spacing, whatever kind it is told to be.
-/
theorem Same.readEntry {contents other : Contents}
    (same : Same marks contents other) (table : Text) {entry : List Mark}
    (steady : Steady {} entry) (inside : entry <:+: marks) :
    Agree (Same marks) (readEntry table contents (rendered .narrow entry))
      (readEntry table other (rendered .wide entry)) := by
  have column := same.readColumn table steady
  rw [Contents.readEntry, Contents.readEntry,
    isConstraintEntry_rendered .narrow .wide]
  split
  next =>
    refine (readConstraint?_rendered steady).bind ?_
    intro one another drafts
    cases drafts with
    | none =>
        dsimp only
        rw [isNamedConstraintEntry_rendered .narrow .wide]
        split
        · exact .read (same.addNote _ _)
        · exact column
    | some draft =>
        exact .read (same.addConstraints table (.cons (draft.mono inside) .nil))
  next => exact column

/-- The two texts of a list of marks are read alike. -/
theorem read_marks {list other : Text} (table : Text) (steady : Steady {} marks)
    (narrow : stripComments list = rendered .narrow marks)
    (wide : stripComments other = rendered .wide marks) :
    Agree (Same marks) (read table list) (read table other) := by
  rw [read, read, narrow, wide, splitCommas_rendered, splitCommas_rendered]
  refine Agree.foldlM ?_ ⟨rfl, .nil⟩
  intro entry member one another same
  exact same.readEntry table (steady.of_mem_markEntries member)
    (infix_of_mem_markEntries member)

end Table.Contents

end Snowform
