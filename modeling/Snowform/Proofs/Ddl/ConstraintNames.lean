import Snowform.Proofs.Ddl.Slices
import Snowform.Proofs.Ddl.TableReading
import Snowform.Proofs.Text.Trimming
import Mathlib.Data.List.Forall2
import Mathlib.Data.List.Nodup

/-!
# Names of constraints

A constraint without a name gets one that no constraint before it has: the
base name made of the table and the kind, or else the base name with the
first number that is free.  A constraint with a name keeps it, whatever names
were generated before.  So two constraints of a table have one name if it was
given twice, or given to a constraint behind the one it was generated for,
and in no other case.
-/

namespace Snowform

open Text Lexical

/-! ## Numbers that are free -/

/-- Different numbers are written differently. -/
theorem decimal_injective : Function.Injective decimal := by
  intro number other same
  rw [decimal, decimal] at same
  rw [← Nat.ofDigitChars_toDigits (b := 10) (n := number) (by decide) (by decide),
    same, Nat.ofDigitChars_toDigits (by decide) (by decide)]

theorem le_freshNumberFrom (number : Nat) (endings : List Text) (tries : Nat) :
    number ≤ freshNumberFrom number endings tries := by
  induction tries generalizing number endings with
  | zero => exact Nat.le_refl number
  | succ tries ih =>
      rw [freshNumberFrom]
      split
      · exact Nat.le_of_succ_le (ih (number + 1) _)
      · exact Nat.le_refl number

/-- With a try for every ending the number that is found is not among them. -/
theorem freshNumberFrom_not_mem {number tries : Nat} {endings : List Text}
    (enough : endings.length ≤ tries) :
    decimal (freshNumberFrom number endings tries) ∉ endings := by
  induction tries generalizing number endings with
  | zero =>
      rw [List.eq_nil_of_length_eq_zero (Nat.le_zero.mp enough)]
      exact List.not_mem_nil
  | succ tries ih =>
      rw [freshNumberFrom]
      split
      next met =>
        have inside : decimal number ∈ endings := by simpa using met
        have fewer : (endings.erase (decimal number)).length ≤ tries := by
          rw [List.length_erase_of_mem inside]
          omega
        -- The ending that was met may be there again, with a smaller number.
        have later := le_freshNumberFrom (number + 1)
          (endings.erase (decimal number)) tries
        intro again
        refine ih fewer ((List.mem_erase_of_ne ?_).mpr again)
        intro same
        have equal := decimal_injective same
        omega
      next free => simpa using free

/-- Numbers behind names start at two. -/
theorem two_le_freshNumber (endings : List Text) : 2 ≤ freshNumber endings :=
  le_freshNumberFrom 2 endings endings.length

/-! ## Single names -/

/-- The names that are generated for constraints of a kind. -/
def IsGenerated (table : Text) (kind : ConstraintKind) (name : Text) : Prop :=
  let base := upper table ++ '_' :: kind.abbreviation
  name = base ∨ ∃ number, 2 ≤ number ∧ name = base ++ '_' :: decimal number

/-- A fresh name is not in use. -/
theorem freshName_not_mem (used : List Text) (base : Text) :
    freshName used base ∉ used := by
  rw [freshName]
  split
  next =>
    dsimp only
    intro member
    exact freshNumberFrom_not_mem (Nat.le_refl _) (List.mem_filterMap.mpr
      ⟨_, member, dropStart?_append (base ++ ['_']) _⟩)
  next free => simpa using free

/-- A fresh name is the base itself or the base with a number behind it. -/
theorem freshName_cases (used : List Text) (base : Text) :
    freshName used base = base ∨
      ∃ number, 2 ≤ number ∧
        freshName used base = base ++ '_' :: decimal number := by
  rw [freshName]
  split
  next =>
    have stem : ∀ number, base ++ ['_'] ++ decimal number =
        base ++ '_' :: decimal number := by
      intro number
      rw [List.append_assoc]
      rfl
    exact .inr ⟨_, two_le_freshNumber _, stem _⟩
  next => exact .inl rfl

/-- How a constraint is made of what is written. -/
structure IsNamed (table : Text) (draft : DraftConstraint)
    (constraint : Constraint) : Prop where
  terms : constraint.toConstraintTerms = draft.toConstraintTerms
  given : ∀ name, draft.name = some name → constraint.name = name
  generated : draft.name = none → IsGenerated table draft.kind constraint.name

/-- A draft is named by its own name or by a fresh one. -/
theorem DraftConstraint.isNamed_named (draft : DraftConstraint) (table : Text)
    (used : List Text) : IsNamed table draft (draft.named table used) where
  terms := rfl
  given := by
    intro name given
    rw [named, given]
    rfl
  generated := by
    intro none
    rw [named, none]
    exact freshName_cases used _

/-- A draft without a name gets one that is not in use. -/
theorem DraftConstraint.name_named_not_mem {draft : DraftConstraint}
    (none : draft.name = none) (table : Text) (used : List Text) :
    (draft.named table used).name ∉ used := by
  rw [named, none]
  exact freshName_not_mem used _

/-! ## Names one after another -/

/-- Constraints with what each was made of. -/
abbrev NamedDrafts : Type :=
  List (DraftConstraint × Constraint)

/-- A generated name is apart from all names before it. -/
def GeneratesApart (named : NamedDrafts) : Prop :=
  named.Pairwise fun earlier later =>
    later.1.name = none → earlier.2.name ≠ later.2.name

/-- Constraints that were named in turn. -/
structure AreNamed (table : Text) (named : NamedDrafts) : Prop where
  each : ∀ pair ∈ named, IsNamed table pair.1 pair.2
  apart : GeneratesApart named

theorem areNamed_nil (table : Text) : AreNamed table [] :=
  ⟨List.forall_mem_nil _, List.Pairwise.nil⟩

/-- One more constraint is named apart from those before it. -/
theorem AreNamed.concat {table : Text} {named : NamedDrafts}
    (areNamed : AreNamed table named) (draft : DraftConstraint) :
    AreNamed table (named ++
      [(draft, draft.named table (named.map (·.2.name)))]) where
  each := by
    rw [List.forall_mem_append, List.forall_mem_singleton]
    exact ⟨areNamed.each, draft.isNamed_named table _⟩
  apart := by
    refine List.pairwise_append.mpr
      ⟨areNamed.apart, List.pairwise_singleton _ _, ?_⟩
    intro earlier member later last
    obtain rfl := List.mem_singleton.mp last
    intro none same
    refine DraftConstraint.name_named_not_mem none table
      (named.map (·.2.name)) ?_
    rw [← same]
    exact List.mem_map_of_mem member

/-- Name constraints in turn, behind those that are named already. -/
def nameAll (table : Text) (named : NamedDrafts)
    (drafts : List DraftConstraint) : NamedDrafts :=
  drafts.foldl (fun named draft => named ++
    [(draft, draft.named table (named.map (·.2.name)))]) named

/-- Drafts are named one after the other. -/
theorem nameAll_append (table : Text) (named : NamedDrafts)
    (first second : List DraftConstraint) :
    nameAll table named (first ++ second) =
      nameAll table (nameAll table named first) second :=
  List.foldl_append

/-- Naming keeps the drafts and their order. -/
theorem map_fst_nameAll (table : Text) (named : NamedDrafts)
    (drafts : List DraftConstraint) :
    (nameAll table named drafts).map (·.1) = named.map (·.1) ++ drafts := by
  induction drafts generalizing named with
  | nil => exact (List.append_nil _).symm
  | cons draft others ih =>
      rw [nameAll, List.foldl_cons, ← nameAll, ih, List.map_append,
        List.append_assoc]
      rfl

/--
Drafts that are named behind others are named with the names of these in use.
-/
theorem AreNamed.nameAll {table : Text} {named : NamedDrafts}
    (areNamed : AreNamed table named) (drafts : List DraftConstraint) :
    AreNamed table (nameAll table named drafts) := by
  induction drafts generalizing named with
  | nil => exact areNamed
  | cons draft others ih => exact ih (areNamed.concat draft)

/-! ## Names that are given twice -/

/-- Whether a name is given behind a constraint that it was generated for. -/
def GivesGeneratedName (named : NamedDrafts) : Prop :=
  ∃ earlier later, [earlier, later].Sublist named ∧
    earlier.1.name = none ∧ later.1.name = some earlier.2.name

/--
Constraints that were named in turn have different names exactly if the given
names are different and none of them was generated before it.
-/
theorem AreNamed.nodup_iff {table : Text} {named : NamedDrafts}
    (areNamed : AreNamed table named) :
    (named.map (·.2.name)).Nodup ↔
      (named.filterMap (·.1.name)).Nodup ∧ ¬ GivesGeneratedName named := by
  have given : ∀ {pair name}, pair ∈ named → pair.1.name = some name →
      pair.2.name = name := fun member => (areNamed.each _ member).given _
  unfold List.Nodup
  rw [List.pairwise_map, List.pairwise_filterMap]
  constructor
  · intro apart
    constructor
    · refine apart.imp_of_mem ?_
      intro earlier later first second different name here other there
      rwa [given first here, given second there] at different
    · rintro ⟨earlier, later, inside, -, again⟩
      have different := List.pairwise_iff_forall_sublist.mp apart inside
      have second : later ∈ named := inside.subset (by simp)
      exact different (given second again).symm
  · rintro ⟨apart, clear⟩
    rw [List.pairwise_iff_forall_sublist]
    intro earlier later inside
    have first : earlier ∈ named := inside.subset (by simp)
    have second : later ∈ named := inside.subset (by simp)
    cases there : later.1.name with
    | none =>
        exact List.pairwise_iff_forall_sublist.mp areNamed.apart inside there
    | some name =>
        cases here : earlier.1.name with
        | none =>
            intro same
            refine clear ⟨earlier, later, inside, here, ?_⟩
            rw [there, same, given second there]
        | some other =>
            rw [given first here, given second there]
            exact List.pairwise_iff_forall_sublist.mp apart inside other here
              name there

/-! ## The column list -/

namespace Table.Contents

/-- The constraints that an entry writes behind its column. -/
def columnDrafts (entry : Text) : Except Fault (List DraftConstraint) :=
  (Column.read? entry).map fun
    | some column => column.constraints
    | none => []

/-- The constraints that an entry of a column list writes. -/
def entryDrafts (entry : Text) : Except Fault (List DraftConstraint) := do
  if isConstraintEntry entry then
    match ← readConstraint? entry with
    | some draft => return [draft]
    | none =>
        if isNamedConstraintEntry entry then return [] else columnDrafts entry
  else
    columnDrafts entry

/-- The constraints that a column list writes, before they are named. -/
def drafts (list : Text) : Except Fault (List DraftConstraint) :=
  ((splitCommas (stripComments list)).mapM entryDrafts).map List.flatten

/-- Contents name their drafts one after the other. -/
theorem constraints_addConstraints {table : Text} {contents : Contents}
    {named : NamedDrafts} (same : contents.constraints = named.map (·.2))
    (drafts : List DraftConstraint) :
    (contents.addConstraints table drafts).constraints =
      (nameAll table named drafts).map (·.2) := by
  induction drafts generalizing contents named with
  | nil => exact same
  | cons draft others ih =>
      refine ih ?_
      dsimp only
      rw [same, List.map_map, List.map_append]
      rfl

/-- What reading an entry adds to the constraints read before it. -/
def Adds (table : Text) (contents changed : Contents)
    (drafts : List DraftConstraint) : Prop :=
  ∀ named : NamedDrafts, contents.constraints = named.map (·.2) →
    changed.constraints = (nameAll table named drafts).map (·.2)

/-- Reading a column adds the constraints of its options. -/
theorem exists_adds_of_readColumn {table entry : Text}
    {contents changed : Contents}
    (read : contents.readColumn table entry = .ok changed) :
    ∃ drafts, columnDrafts entry = .ok drafts ∧
      Adds table contents changed drafts := by
  rw [readColumn] at read
  obtain ⟨column?, known, read⟩ := bind_eq_ok_iff.mp read
  rw [columnDrafts, known]
  cases column? with
  | none =>
      cases read
      exact ⟨[], rfl, fun _ same => same⟩
  | some column =>
      cases read
      refine ⟨column.constraints, rfl, fun named same => ?_⟩
      refine constraints_addConstraints ?_ column.constraints
      exact same

/-- Reading an entry adds its constraints, whatever kind of entry it is. -/
theorem exists_adds_of_readEntry {table entry : Text}
    {contents changed : Contents}
    (read : contents.readEntry table entry = .ok changed) :
    ∃ drafts, entryDrafts entry = .ok drafts ∧
      Adds table contents changed drafts := by
  rw [readEntry] at read
  rw [entryDrafts]
  split at read
  next isEntry =>
    rw [if_pos isEntry]
    obtain ⟨draft?, known, read⟩ := bind_eq_ok_iff.mp read
    rw [known]
    cases draft? with
    | some draft =>
        cases read
        exact ⟨[draft], rfl, fun _ same => constraints_addConstraints same _⟩
    | none =>
        change ∃ drafts, (if isNamedConstraintEntry entry = true then
          .ok [] else columnDrafts entry) = .ok drafts ∧ _
        dsimp only at read
        split at read
        next skipped =>
          rw [if_pos skipped]
          cases read
          exact ⟨[], rfl, fun _ same => same⟩
        next other =>
          rw [if_neg other]
          exact exists_adds_of_readColumn read
  next other =>
    rw [if_neg other]
    exact exists_adds_of_readColumn read

/-- Entries read one after another name all their constraints in turn. -/
theorem exists_nameAll_of_foldlM {table : Text} {entries : List Text}
    {start contents : Contents} {named : NamedDrafts}
    (same : start.constraints = named.map (·.2))
    (run : entries.foldlM (readEntry table) start = .ok contents) :
    ∃ written, (entries.mapM entryDrafts).map List.flatten = .ok written ∧
      contents.constraints = (nameAll table named written).map (·.2) := by
  induction entries generalizing start named with
  | nil =>
      cases run
      exact ⟨[], rfl, same⟩
  | cons entry others ih =>
      rw [List.foldlM_cons, bind_eq_ok_iff] at run
      obtain ⟨next, here, run⟩ := run
      obtain ⟨first, written, adds⟩ := exists_adds_of_readEntry here
      obtain ⟨rest, later, all⟩ := ih (adds named same) run
      obtain ⟨lists, known, rfl⟩ := map_eq_ok_iff.mp later
      refine ⟨first ++ lists.flatten, ?_, ?_⟩
      · rw [List.mapM_cons, written, known]
        rfl
      · rw [all, nameAll_append]

/-- A column list names all constraints that it writes in turn. -/
theorem exists_nameAll_of_read {table list : Text} {contents : Contents}
    (run : read table list = .ok contents) :
    ∃ written, drafts list = .ok written ∧
      contents.constraints = (nameAll table [] written).map (·.2) :=
  exists_nameAll_of_foldlM rfl run

end Table.Contents

/-! ## Tables -/

namespace Table

/-- A table that is read has a list in its statement. -/
theorem hasList_of_readAs {statement written : Text} {table : Table}
    {notes : List Note} {flags : HeadFlags} {start rest inside tail : List Cell}
    {contents : Contents}
    (readAs : ReadAs statement table notes flags start rest inside tail written
      contents) : HasList statement table.name written :=
  ⟨inside, tail, ⟨start, rest, ⟨flags, readAs.head, readAs.name⟩, readAs.list⟩,
    Reading.ofFault_eq_ok_iff.mp readAs.source⟩

/--
The constraints of a table are named in turn, where a generated name is of
the form for it and apart from all names before it.  They have different
names exactly if the names that are given are different and none of them was
generated for a constraint before it.
-/
theorem names_apart_iff {statement : Text} {table : Table} {notes : List Note}
    (result : read statement = .ok (table, notes)) :
    ∃ written named, HasList statement table.name written ∧
      Contents.drafts written = .ok (named.map (·.1)) ∧
      table.constraints = named.map (·.2) ∧
      AreNamed table.name.name named ∧
      ((table.constraints.map (·.name)).Nodup ↔
        (named.filterMap (·.1.name)).Nodup ∧ ¬ GivesGeneratedName named) := by
  obtain ⟨_, _, _, _, _, written, contents, readAs⟩ := exists_readAs result
  obtain ⟨drafts, known, same⟩ :=
    Contents.exists_nameAll_of_read readAs.entries
  have areNamed := (areNamed_nil table.name.name).nameAll drafts
  refine ⟨written, _, hasList_of_readAs readAs, ?_,
    readAs.constraints_eq.trans same, areNamed, ?_⟩
  · rw [known, map_fst_nameAll]
    rfl
  · rw [← areNamed.nodup_iff, readAs.constraints_eq, same, List.map_map]
    rfl

/-- Constraints of all kinds, with a name that looks like a generated one. -/
def mixedStatement : Text :=
  "CREATE TABLE t (a INT PRIMARY KEY, CONSTRAINT T_UK UNIQUE (a), b INT UNIQUE
    REFERENCES s (b), CONSTRAINT T_UK_3 CHECK (b > 0), UNIQUE (a, b))"

/--
Names that are given and names that are generated side by side, all of them
different.
-/
theorem names_apart_mixedStatement :
    ∃ table notes, read mixedStatement = .ok (table, notes) ∧
      table.constraints.map (·.name) =
        ["T_PK", "T_UK", "T_UK_2", "T_FK", "T_UK_3", "T_UK_4"] ∧
      ∃ written named, HasList mixedStatement table.name written ∧
        Contents.drafts written = .ok (named.map (·.1)) ∧
        table.constraints = named.map (·.2) ∧
        AreNamed table.name.name named ∧
        ((table.constraints.map (·.name)).Nodup ↔
          (named.filterMap (·.1.name)).Nodup ∧ ¬ GivesGeneratedName named) := by
  have reads : (read mixedStatement).map (·.1.constraints.map (·.name)) =
      .ok ["T_PK", "T_UK", "T_UK_2", "T_FK", "T_UK_3", "T_UK_4"] := by
    decide +kernel
  obtain ⟨⟨table, notes⟩, result, names⟩ := map_eq_ok_iff.mp reads
  exact ⟨table, notes, result, names, names_apart_iff result⟩

/-- A column list that gives a name behind the key it is generated for. -/
def lateNameList : Text :=
  "a INT PRIMARY KEY, CONSTRAINT T_PK UNIQUE (a)"

/-- One name is given, and two constraints have it. -/
theorem lateNameList_repeats_name :
    (Contents.drafts lateNameList).map (·.filterMap (·.name)) =
        .ok ["T_PK"] ∧
      (read ("CREATE TABLE t (" ++ lateNameList ++ ")")).map
          (·.1.constraints.map (·.name)) = .ok ["T_PK", "T_PK"] := by
  decide +kernel

end Table

end Snowform
