import Snowform.Ddl.Script
import Snowform.Proofs.Ddl.Clauses
import Snowform.Proofs.Ddl.Reading
import Snowform.Proofs.Lexical.Enclosing
import Snowform.Proofs.Lexical.Showing

/-!
# Lists that look alike

A reader is followed step by step on two lists of cells at once.  Every step
finds the same in both, and keeps that what is left is whole and shows the
same, so that its source can be read and the next step can be taken.
-/

namespace Snowform

open Text Lexical

/-- Lists of cells that cut no character and show the same text. -/
structure LookAlike (first second : List Cell) : Prop where
  left : Whole first
  right : Whole second
  same : shownText first = shownText second

namespace LookAlike

variable {first second : List Cell}

theorem isEmpty_eq (alike : LookAlike first second) :
    first.isEmpty = second.isEmpty := by
  have seen : ∀ list : List Cell, (shownText list).isEmpty = list.isEmpty :=
    fun _ => List.isEmpty_map
  rw [← seen, alike.same, seen]

theorem startsWith_eq (alike : LookAlike first second) (test : Char → Bool) :
    startsWith test first = startsWith test second := by
  rw [← startsWith_shownText, alike.same, startsWith_shownText]

/-- What is left when both lists are changed alike. -/
theorem change {change : List Cell → List Cell}
    (alike : LookAlike first second)
    (leaves : ∀ list, Leaves list (change list))
    {seen : Text → Text}
    (shows : ∀ list : List Cell, seen (shownText list) = shownText (change list)) :
    LookAlike (change first) (change second) where
  left := alike.left.of_leaves (leaves first)
  right := alike.right.of_leaves (leaves second)
  same := by rw [← shows, alike.same, shows]

/-- Lists that look alike do so behind their blanks. -/
theorem skipBlanks (alike : LookAlike first second) :
    LookAlike (skipBlanks first) (skipBlanks second) :=
  alike.change leaves_skipBlanks skipBlanks_shownText

theorem dropWhile (alike : LookAlike first second) (test : Char → Bool) :
    LookAlike (first.dropWhile (shows test)) (second.dropWhile (shows test)) :=
  alike.change (leaves_dropWhile test) (dropWhile_shownText test)

/-- What a recogniser finds in lists that look alike. -/
theorem find {β γ : Type} {recognise : List Cell → Option β} {form : β → γ}
    {seen : Text → Option γ} (alike : LookAlike first second)
    (shows : ∀ list, seen (shownText list) = (recognise list).map form)
    {related : β → β → Prop}
    (relates : ∀ one other, recognise first = some one →
      recognise second = some other → form one = form other →
        related one other) :
    Option.Rel related (recognise first) (recognise second) := by
  have same : (recognise first).map form = (recognise second).map form := by
    rw [← shows, alike.same, shows]
  cases left : recognise first with
  | none =>
      cases right : recognise second with
      | none => exact .none
      | some other =>
          rw [left, right] at same
          cases same
  | some one =>
      cases right : recognise second with
      | none =>
          rw [left, right] at same
          cases same
      | some other =>
          rw [left, right] at same
          exact .some (relates one other left right (Option.some.inj same))

/-- Heads that look alike are read alike, and so is what follows them. -/
theorem readHead? (alike : LookAlike first second) (object : ObjectKind) :
    Option.Rel (fun one other => one.1 = other.1 ∧ LookAlike one.2 other.2)
      (readHead? object first) (readHead? object second) := by
  apply alike.find (readHead?_shownText object)
  rintro ⟨flags, rest⟩ ⟨others, behind⟩ left right same
  obtain ⟨flagged, shown⟩ := Prod.mk.inj same
  exact ⟨flagged, alike.left.of_leaves (leaves_of_readHead? left),
    alike.right.of_leaves (leaves_of_readHead? right), shown⟩

/-- Parentheses that look alike close alike. -/
theorem parenthesised? (alike : LookAlike first second) :
    Option.Rel (fun one other =>
        LookAlike one.1 other.1 ∧ LookAlike one.2 other.2)
      (parenthesised? first) (parenthesised? second) := by
  apply alike.find parenthesised?_shownText
  rintro ⟨inside, tail⟩ ⟨within, behind⟩ left right same
  obtain ⟨shownInside, shownTail⟩ := Prod.mk.inj same
  have leftWhole := alike.left.inside left
  have rightWhole := alike.right.inside right
  exact ⟨⟨leftWhole.1, rightWhole.1, shownInside⟩,
    ⟨leftWhole.2, rightWhole.2, shownTail⟩⟩

/-- The first occurrences that a search finds stand at the same place. -/
theorem findFirst {β γ : Type} {recognise : Recogniser Cell β} {form : β → γ}
    {seen : Recogniser Char γ} (alike : LookAlike first second)
    (shows : Shows form recognise seen) (loud : StartsLoud recognise)
    (leaves : ∀ behind ahead found after,
      recognise behind ahead = some (found, after) → Leaves ahead after) :
    Option.Rel (fun one other => one.1.length = other.1.length ∧
        form one.2.1 = form other.2.1 ∧ LookAlike one.2.2 other.2.2)
      (findFirst recognise [] first) (findFirst recognise [] second) := by
  apply alike.find fun list => findFirst_shownText shows [] list
  rintro ⟨before, found, after⟩ ⟨earlier, other, behind⟩ left right same
  obtain ⟨shownBefore, same⟩ := Prod.mk.inj same
  obtain ⟨forms, shownAfter⟩ := Prod.mk.inj same
  obtain ⟨here, leftLeaves, -, leftHere⟩ := leaves_of_findFirst loud left
  obtain ⟨there, rightLeaves, -, rightThere⟩ := leaves_of_findFirst loud right
  refine ⟨?_, forms, ?_, ?_, shownAfter⟩
  · rw [← length_shownText before, shownBefore, length_shownText]
  · exact (alike.left.of_leaves leftLeaves).of_leaves (leaves _ _ _ _ leftHere)
  · exact (alike.right.of_leaves rightLeaves).of_leaves
      (leaves _ _ _ _ rightThere)

theorem dropFinalBlanks (alike : LookAlike first second) :
    LookAlike (dropFinalBlanks first) (dropFinalBlanks second) where
  left := alike.left.dropFinalBlanks
  right := alike.right.dropFinalBlanks
  same := by
    rw [← dropFinalBlanks_shownText, alike.same, dropFinalBlanks_shownText]

end LookAlike

/-! ## Steps of readings -/

/-- Readings with related results, or rejected for the same reason. -/
inductive Reading.Alike {α β : Type} (related : α → β → Prop) :
    Reading α → Reading β → Prop where
  | rejected (reason : Rejection) :
      Alike related (Reading.reject reason) (Reading.reject reason)
  | read {first : α} {second : β} (results : related first second) :
      Alike related (.ok first) (.ok second)

namespace Reading.Alike

variable {α β γ δ : Type} {related : α → β → Prop} {further : γ → δ → Prop}

/-- Readings that are alike may be followed by readings that are alike. -/
theorem bind {first : Reading α} {second : Reading β}
    {next : α → Reading γ} {after : β → Reading δ}
    (alike : Alike related first second)
    (steps : ∀ one other, first = .ok one → second = .ok other →
      related one other → Alike further (next one) (after other)) :
    Alike further (first >>= next) (second >>= after) := by
  cases alike with
  | rejected reason => exact .rejected reason
  | read results => exact steps _ _ rfl rfl results

/-- What is required is there on both sides or on neither. -/
theorem require {first : Option α} {second : Option β}
    (alike : Option.Rel related first second) (reason : Rejection) :
    Alike related (Reading.require reason first)
      (Reading.require reason second) := by
  cases alike with
  | none => exact .rejected reason
  | some results => exact .read results

theorem map {first : Reading α} {second : Reading β} {change : α → γ}
    {other : β → δ} (alike : Alike related first second)
    (results : ∀ one another, related one another →
      further (change one) (other another)) :
    Alike further (first.map change) (second.map other) := by
  cases alike with
  | rejected reason => exact .rejected reason
  | read related => exact .read (results _ _ related)

end Reading.Alike

/-! ## Sources -/

/-- Cells that cut no character are read without a fault. -/
theorem Whole.readSource {list : List Cell} (whole : Whole list) :
    ∃ text, readSource list = .ok text ∧ source? list = some text := by
  obtain ⟨text, source, -⟩ := whole.exists_source
  refine ⟨text, ?_, source⟩
  rw [Snowform.readSource, sourceOf, source]
  rfl

/--
Lists that look alike are both read, though they may come from different texts.
-/
theorem LookAlike.readSource {first second : List Cell}
    (alike : LookAlike first second) :
    Reading.Alike (fun _ _ => True) (readSource first) (readSource second) := by
  obtain ⟨one, left, -⟩ := alike.left.readSource
  obtain ⟨other, right, -⟩ := alike.right.readSource
  rw [left, right]
  exact .read trivial

/-! ## Names -/

/-- The cells that the name of an object is read from. -/
def nameCells (list : List Cell) : List Cell :=
  (skipBlanks list).takeWhile (shows fun shown => !endsName shown)

/-- The text that names the object of a statement. -/
def nameText? (object : ObjectKind) (statement : Text) : Option Text := do
  let (_, start) ← readHead? object (cells statement)
  source? (nameCells start)

/-- A name is read from its cells and must not be empty. -/
theorem readName_eq (object : ObjectKind) (list : List Cell) :
    readName object list =
      if (nameCells list).isEmpty then
        Reading.reject (.missingName object)
      else do
        let name := QualifiedName.ofText (← readSource (nameCells list))
        if name.name.isEmpty then
          Reading.reject (.missingName object)
        else
          return (name, (skipBlanks list).dropWhile
            (shows fun shown => !endsName shown)) := by
  have dropped : (skipBlanks list).drop (nameCells list).length =
      (skipBlanks list).dropWhile (shows fun shown => !endsName shown) := by
    conv_lhs =>
      arg 2
      rw [← List.takeWhile_append_dropWhile
        (p := shows fun shown => !endsName shown) (l := skipBlanks list)]
    exact List.drop_left
  rw [← dropped]
  rfl

/-- What follows a name is told by its look. -/
theorem rest_of_readName {object : ObjectKind} {list rest : List Cell}
    {name : QualifiedName} (read : readName object list = .ok (name, rest)) :
    rest = (skipBlanks list).dropWhile
      (shows fun shown => !endsName shown) := by
  rw [readName_eq] at read
  split at read
  next => cases read
  next =>
    obtain ⟨text, -, read⟩ := bind_eq_ok_iff.mp read
    dsimp only at read
    split at read
    next => cases read
    next =>
      cases read
      rfl

/-- Reading a name leaves the end of the list. -/
theorem leaves_of_readName {object : ObjectKind} {list rest : List Cell}
    {name : QualifiedName} (read : readName object list = .ok (name, rest)) :
    Leaves list rest := by
  rw [rest_of_readName read]
  exact (leaves_skipBlanks list).trans (leaves_dropWhile _ _)

/-- What is left behind a name starts with a character that ends names. -/
theorem endsName_of_readName {object : ObjectKind} {list rest : List Cell}
    {name : QualifiedName} (read : readName object list = .ok (name, rest)) :
    ∀ next ∈ rest.head?, endsName (shown next) = true := by
  intro next isNext
  have stops := List.head?_dropWhile_not
    (shows fun shown => !endsName shown) (skipBlanks list)
  rw [← rest_of_readName read, isNext] at stops
  simpa [shows] using stops

/-- Reading columns leaves the end of the list. -/
theorem View.leaves_of_readColumns {list rest : List Cell}
    {columns : Option (List Text)}
    (read : View.readColumns list = .ok (columns, rest)) : Leaves list rest := by
  rw [View.readColumns] at read
  dsimp only at read
  split at read
  next =>
    obtain ⟨⟨inside, tail⟩, closed, read⟩ := bind_eq_ok_iff.mp read
    obtain ⟨text, -, read⟩ := bind_eq_ok_iff.mp read
    cases read
    exact (leaves_skipBlanks list).trans
      (leaves_tail_of_parenthesised? (Reading.require_eq_ok_iff.mp closed))
  next =>
    cases read
    exact Leaves.refl _

/--
Lists that look alike have the same name if its cells come from the same text.
-/
theorem LookAlike.readName {first second : List Cell}
    (alike : LookAlike first second) (object : ObjectKind)
    (names : source? (nameCells first) = source? (nameCells second)) :
    Reading.Alike (fun one other => one.1 = other.1 ∧
        LookAlike one.2 other.2)
      (readName object first) (readName object second) := by
  have start := alike.skipBlanks
  have written : LookAlike (nameCells first) (nameCells second) := {
    left := start.left.takeWhile _
    right := start.right.takeWhile _
    same := by
      rw [nameCells, nameCells, ← takeWhile_shownText, start.same,
        takeWhile_shownText] }
  obtain ⟨text, left, source⟩ := written.left.readSource
  obtain ⟨other, right, same⟩ := written.right.readSource
  rw [source, same] at names
  cases names
  rw [readName_eq, readName_eq, written.isEmpty_eq, left, right]
  split
  · exact .rejected _
  · change Reading.Alike _ (if (QualifiedName.ofText text).name.isEmpty
      then _ else _) (if (QualifiedName.ofText text).name.isEmpty then _ else _)
    split
    · exact .rejected _
    · exact .read ⟨rfl, start.dropWhile _⟩

/-! ## Clauses -/

/-- A comment clause is found in both lists, and read from each of them. -/
theorem LookAlike.findComment {first second : List Cell}
    (alike : LookAlike first second) :
    ∃ one other, findComment first = .ok one ∧ findComment second = .ok other ∧
      one.isSome = other.isSome := by
  have reads : ∀ {list before clause after : List Cell}, Whole list →
      Text.findFirst commentClause? [] list = some (before, clause, after) →
        ∃ text, sourceOf clause = .ok text := by
    intro list before clause after whole found
    have cuts := cutsOut_of_findFirst_commentClause? found
    obtain ⟨text, source, -⟩ := (whole.of_cutsOut cuts).exists_source
    exact ⟨text, by rw [sourceOf, source]⟩
  have found := alike.findFirst commentClause?_shows startsLoud_commentClause?
    fun _ _ _ _ known => (leaves_of_commentClause? known).2
  rw [Snowform.findComment, Snowform.findComment]
  cases left : Text.findFirst commentClause? [] first with
  | none =>
      cases right : Text.findFirst commentClause? [] second with
      | none => exact ⟨none, none, rfl, rfl, rfl⟩
      | some other =>
          rw [left, right] at found
          cases found
  | some one =>
      cases right : Text.findFirst commentClause? [] second with
      | none =>
          rw [left, right] at found
          cases found
      | some other =>
          obtain ⟨text, source⟩ := reads alike.left left
          obtain ⟨another, sourceToo⟩ := reads alike.right right
          simp only [source, sourceToo]
          exact ⟨_, _, rfl, rfl, rfl⟩

/-- Clustering keys are read from every whole list. -/
theorem Whole.readClusterBy {list : List Cell} (whole : Whole list) :
    ∃ keys, Table.readClusterBy list = .ok keys := by
  rw [Table.readClusterBy]
  dsimp only
  split
  next => exact ⟨none, rfl⟩
  next inside behind found =>
    obtain ⟨⟨before, keys, after⟩, first, closed⟩ :=
      Option.bind_eq_some_iff.mp found
    have cuts := cutsOut_of_findFirst_clusterBy? first closed
    obtain ⟨text, source, -⟩ := (whole.of_cutsOut cuts).exists_source
    simp only [sourceOf, source]
    exact ⟨_, rfl⟩

end Snowform
