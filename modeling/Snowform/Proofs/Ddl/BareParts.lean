import Snowform.Proofs.Ddl.QuotedReferences
import Snowform.Proofs.Ddl.UnbrokenNames

/-!
# Referenced names that are cut

Behind a dot a referenced table is read as if it had no quotes.  So a quoted
part with a blank or an opening parenthesis is cut there, and a reference is
read back exactly if no part behind a dot has one.
-/

namespace Snowform

open Text Lexical

/-! ## Names that end inside of a part -/

/-- The start of a quoted name, whose closing quote is missing. -/
def openedName (front : Text) : Text :=
  '"' :: doubled front

/-- Quoted parts and the start of a further one. -/
def cutName (first : Text) (between : List Text) (front : Text) : Text :=
  ['.'].intercalate ((first :: between).map quotedName ++ [openedName front])

theorem cutName_eq (first : Text) (between : List Text) (front : Text) :
    cutName first between front = quotedName first ++
      (between.map quotedName ++ [openedName front]).flatMap ('.' :: ·) := by
  rw [cutName, List.map_cons, List.cons_append, intercalate_cons]

theorem quotedName_of_split {front back : Text} {character : Char}
    (other : character ≠ '"') :
    quotedName (front ++ character :: back) =
      openedName front ++ character :: (doubled back ++ ['"']) := by
  have parts : doubled (front ++ character :: back) =
      doubled front ++ character :: doubled back := by
    rw [doubled, List.flatMap_append, List.flatMap_cons, if_neg other]
    rfl
  rw [quotedName, parts, openedName, List.append_assoc]
  rfl

/-- A name with a split part is a cut name and what follows it. -/
theorem exists_quoted_eq_cutName {name : QualifiedName}
    {first front back : Text} {between later : List Text} {character : Char}
    (other : character ≠ '"')
    (parts : name.parts =
      first :: (between ++ (front ++ character :: back) :: later)) :
    ∃ behind, name.quoted =
      cutName first between front ++ character :: behind := by
  refine ⟨doubled back ++ '"' ::
    (later.map quotedName).flatMap ('.' :: ·), ?_⟩
  rw [QualifiedName.quoted, parts, List.map_cons, intercalate_cons,
    List.map_append, List.map_cons, quotedName_of_split other, cutName_eq]
  simp

theorem isBare_openedName {front : Text} (bare : IsBare front) :
    IsBare (openedName front) := by
  have quote : endsBareName '"' = false := by decide
  exact List.forall_mem_cons.mpr ⟨quote, fun character member =>
    bare character (mem_doubled.mp member)⟩

/-- The end of a table is found where a part behind a dot is cut. -/
theorem afterTarget_cutName {between : List Text} {front : Text}
    (bareBetween : ∀ part ∈ between, IsBare part) (bareFront : IsBare front)
    {character : Char} (ends : endsBareName character = true)
    (first rest : Text) :
    afterTarget .fresh (cutName first between front ++ character :: rest) =
      character :: rest := by
  have bare : IsBare
      ((between.map quotedName ++ [openedName front]).flatMap ('.' :: ·)) := by
    have dot : endsBareName '.' = false := by decide
    intro letter member
    obtain ⟨part, known, inside⟩ := List.mem_flatMap.mp member
    rcases List.mem_cons.mp inside with rfl | inside
    · exact dot
    · rcases List.mem_append.mp known with earlier | last
      · obtain ⟨name, listed, rfl⟩ := List.mem_map.mp earlier
        exact (bareBetween name listed).quotedName letter inside
      · rw [List.mem_singleton.mp last] at inside
        exact isBare_openedName bareFront letter inside
  obtain ⟨others, starts⟩ : ∃ others,
      (between.map quotedName ++ [openedName front]).flatMap ('.' :: ·) =
        '.' :: others := by
    cases between <;> exact ⟨_, rfl⟩
  rw [starts] at bare
  have behind := afterTarget_bare (List.forall_mem_cons.mp bare).2 ends rest
  rw [cutName_eq, List.append_assoc, afterTarget_quotedName, starts,
    List.cons_append, afterTarget, if_neg (by decide), if_neg (by simp),
    behind]

/-! ## The parts of a cut name -/

theorem pieces_openedName (front : Text) :
    pieces dotSeparates quoteAdvances false (openedName front) =
      [openedName front] := by
  have inside : pieces dotSeparates quoteAdvances true (doubled front) =
      [doubled front] := by
    induction front with
    | nil => rfl
    | cons character others ih =>
        by_cases quote : character = '"'
        · rw [quote, doubled_cons_quote]
          exact congrArg (fun list => consFirst '"' (consFirst '"' list)) ih
        · have stays : quoteAdvances true character = true := by
            simp [quoteAdvances, quote]
          rw [doubled_cons quote, pieces, if_neg (by simp), stays, ih]
          rfl
  exact congrArg (consFirst '"') inside

theorem dotted_cutName (first : Text) (between : List Text) (front : Text) :
    QualifiedName.dotted (cutName first between front) =
      (first :: between).map quotedName ++ [openedName front] := by
  change pieces dotSeparates quoteAdvances false _ = _
  have dot : ∀ text list, pieces dotSeparates quoteAdvances false text = list →
      pieces dotSeparates quoteAdvances false ('.' :: text) = [] :: list := by
    rintro text list rfl
    rfl
  induction between generalizing first with
  | nil =>
      have parts : cutName first [] front =
          quotedName first ++ '.' :: openedName front := by
        rw [cutName_eq]
        simp
      rw [parts, pieces_quotedName, dot _ _ (pieces_openedName front),
        foldr_consFirst, List.append_nil]
      rfl
  | cons second rest ih =>
      have parts : cutName first (second :: rest) front =
          quotedName first ++ '.' :: cutName second rest front := by
        rw [cutName_eq, cutName_eq]
        simp
      rw [parts, pieces_quotedName, dot _ _ (ih second), foldr_consFirst,
        List.append_nil]
      rfl

theorem trim_cutName {front : Text} (bare : IsBare front) (first : Text)
    (between : List Text) :
    trim (cutName first between front) = cutName first between front := by
  refine trim_eq_self ?_ ?_
  · rw [cutName_eq]
    rintro character ⟨⟩
    decide
  · intro last final
    have nonempty : openedName front ≠ [] := List.cons_ne_nil _ _
    have ends : (cutName first between front).getLast? =
        (openedName front).getLast? := by
      rw [cutName_eq, List.flatMap_append, List.flatMap_singleton,
        ← List.append_assoc, List.getLast?_append_cons, List.getLast?_cons,
        List.getLast?_eq_some_getLast nonempty]
      rfl
    rw [ends] at final
    have visible := isBare_openedName bare last (List.mem_of_mem_getLast? final)
    exact (Bool.or_eq_false_iff.mp visible).1

/-- The parts of a name that is read from up to three pieces. -/
theorem QualifiedName.parts_ofText {text first : Text} {others : List Text}
    (cut : (dotted (trim text)).map unquote = first :: others)
    (few : others.length ≤ 2) : (ofText text).parts = first :: others := by
  rw [ofText, cut]
  rcases others with _ | ⟨second, _ | ⟨third, _ | ⟨fourth, rest⟩⟩⟩
  · rfl
  · rfl
  · rfl
  · simp at few

theorem QualifiedName.length_parts_le (name : QualifiedName) :
    name.parts.length ≤ 3 := by
  obtain ⟨database, schema, last⟩ := name
  cases database <;> cases schema <;> simp [parts]

/-! ## References -/

/-- The table of a reference is what stands up to the end of the target. -/
theorem table_of_readReferences? {first : Char} {table behind : Text}
    (visible : isBlank first = false)
    (ends : afterTarget .fresh (first :: table ++ behind) = behind)
    {target : ForeignKeyTarget} {rest : Text}
    (read : readReferences? (reference (first :: table ++ behind)) =
      .ok (some (target, rest))) :
    target.table = QualifiedName.ofText (trim (first :: table)) := by
  rw [readReferences?_of_table visible ends] at read
  split at read
  next =>
    obtain ⟨parts, -, same⟩ := Option.map_eq_some_iff.mp (Except.ok.inj read)
    rw [← (Prod.mk.inj same).1]
  next =>
    cases read
    rfl

/-- Where not all elements of a list have a property, a first one lacks it. -/
theorem exists_first_without {α : Type} {holds : α → Prop} {list : List α}
    (broken : ¬ ∀ element ∈ list, holds element) :
    ∃ before element after, list = before ++ element :: after ∧
      (∀ earlier ∈ before, holds earlier) ∧ ¬ holds element := by
  induction list with
  | nil => exact absurd (List.forall_mem_nil _) broken
  | cons first rest ih =>
      by_cases here : holds first
      · obtain ⟨before, element, after, rfl, all, lacks⟩ :=
          ih fun all => broken (List.forall_mem_cons.mpr ⟨here, all⟩)
        exact ⟨first :: before, element, after, rfl,
          List.forall_mem_cons.mpr ⟨here, all⟩, lacks⟩
      · exact ⟨[], first, rest, rfl, List.forall_mem_nil _, here⟩

theorem isBare_unquote {text : Text} (bare : IsBare text) :
    IsBare (unquote text) := by
  intro character member
  rcases mem_of_mem_unquote member with rfl | inside
  · decide
  · exact bare character inside

namespace ForeignKeyTarget

/-- A table with a part that is cut is read with another part in its place. -/
theorem isBare_of_read {target : ForeignKeyTarget} {rest : Text}
    (read : readReferences? (reference (target.written ++ rest)) =
      .ok (some (target, rest))) :
    ∀ part ∈ target.table.parts.tail, IsBare part := by
  by_contra broken
  obtain ⟨between, part, later, tail, bareBetween, notBare⟩ :=
    exists_first_without broken
  obtain ⟨front, character, back, rfl, bareFront, isEnd⟩ :=
    exists_first_without notBare
  have ends : endsBareName character = true := by simpa using isEnd
  have other : character ≠ '"' := by
    rintro rfl
    cases ends
  obtain ⟨first, others, all⟩ := target.table.exists_parts_eq_cons
  have whole := all
  rw [all, List.tail_cons] at tail
  rw [tail] at all
  obtain ⟨behind, cut⟩ := exists_quoted_eq_cutName other all
  obtain ⟨text, starts⟩ : ∃ text, cutName first between front = '"' :: text :=
    ⟨_, cutName_eq first between front⟩
  have written : target.written ++ rest =
      '"' :: text ++ character :: (behind ++
        (' ' :: '(' :: (listed [] target.columns ++ [')']) ++ rest)) := by
    rw [ForeignKeyTarget.written, cut, starts]
    simp
  have after := afterTarget_cutName bareBetween bareFront ends first
    (behind ++ (' ' :: '(' :: (listed [] target.columns ++ [')']) ++ rest))
  rw [starts] at after
  rw [written] at read
  have table := table_of_readReferences? (by decide) after read
  rw [← starts, trim_cutName bareFront] at table
  have pieces : (QualifiedName.dotted
      (trim (cutName first between front))).map unquote =
        first :: (between ++ [unquote (openedName front)]) := by
    rw [trim_cutName bareFront, dotted_cutName, List.map_append, List.map_map]
    simp [Function.comp_def, unquote_quotedName]
  have few : (between ++ [unquote (openedName front)]).length ≤ 2 := by
    have size := target.table.length_parts_le
    rw [all, List.length_cons, List.length_append, List.length_cons] at size
    rw [List.length_append, List.length_singleton]
    omega
  have known := QualifiedName.parts_ofText pieces few
  rw [← table, all] at known
  -- The part that was written stands where the cut one was read.
  have same := List.append_cancel_left (List.cons.inj known).2
  have bare := isBare_unquote (isBare_openedName bareFront)
  rw [← (List.cons.inj same).1] at bare
  exact notBare bare

/--
A reference is read back exactly if no part of its table behind a dot has a
blank or an opening parenthesis.
-/
theorem read_back_iff_isBare {target : ForeignKeyTarget}
    (regular : target.table.IsRegular)
    (filled : ∀ column ∈ target.columns, column ≠ []) (rest : Text) :
    readReferences? (reference (target.written ++ rest)) =
        .ok (some (target, rest)) ↔
      ∀ part ∈ target.table.parts.tail, IsBare part :=
  ⟨isBare_of_read, fun bare =>
    readReferences?_written ⟨regular, bare, filled⟩ rest⟩

/-- A target with marks of every kind, the blanks in its first part. -/
def markedTarget : ForeignKeyTarget where
  table := { database := some "d b (", schema := some "s.\"", name := "t,'" }
  columns := ["x, y", "z)\"", "REFERENCES"]

/-- Only the first part may hold what ends a bare name, and here it does. -/
theorem read_back_markedTarget :
    readReferences? (reference (markedTarget.written ++ " NOT NULL")) =
      .ok (some (markedTarget, " NOT NULL")) :=
  (read_back_iff_isBare (fun _ => rfl) (by decide) _).mpr (by decide)

/-- A target whose name has a blank behind a dot. -/
def spacedTarget : ForeignKeyTarget where
  table := { schema := some "a", name := "b c" }
  columns := ["x"]

/-- The name is cut at the blank, and its end is taken for what follows. -/
theorem spacedTarget_is_cut :
    readReferences? (reference spacedTarget.written) =
      .ok (some (⟨{ schema := some "a", name := "b" }, []⟩,
        " c\" (\"x\")")) := by
  decide +kernel

end ForeignKeyTarget

end Snowform
