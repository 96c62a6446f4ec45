import Snowform.Proofs.Ddl.Clauses
import Snowform.Proofs.Ddl.Lookalikes
import Snowform.Proofs.Lexical.Blanking

/-!
# Readers of a statement with covered comments

Readers see what cells show.  Covering the comments of a statement changes
none of that, so every reader cuts the statement at the same places as before,
and finds the same cells but for those that were hidden in comments.
-/

namespace Snowform

open Text Lexical

namespace Lexical

/-- The cells as they are when comments are covered. -/
def revealed (list : List Cell) : List Cell :=
  list.map Cell.revealed

@[simp]
theorem revealed_nil : revealed [] = [] := rfl

@[simp]
theorem revealed_append (first second : List Cell) :
    revealed (first ++ second) = revealed first ++ revealed second :=
  List.map_append

@[simp]
theorem length_revealed (list : List Cell) :
    (revealed list).length = list.length :=
  List.length_map _

@[simp]
theorem shownText_revealed (list : List Cell) :
    shownText (revealed list) = shownText list := by
  rw [shownText, revealed, List.map_map]
  exact List.map_congr_left fun cell _ => cell.shown_revealed

/-- A revealed cell shows the same character. -/
theorem shows_revealed (test : Char → Bool) (cell : Cell) :
    shows test cell.revealed = shows test cell := by
  rw [shows, Cell.shown_revealed, shows]

/-- Cells that show no blank are left as they are. -/
theorem revealed_eq_self {list : List Cell}
    (visible : ∀ cell ∈ list, isBlank (shown cell) = false) :
    revealed list = list := by
  refine (List.map_congr_left fun cell member => ?_).trans (List.map_id list)
  apply Cell.revealed_of_shown
  intro blank
  have known := visible cell member
  rw [blank] at known
  cases known

theorem dropWhile_revealed (test : Char → Bool) (list : List Cell) :
    (revealed list).dropWhile (shows test) =
      revealed (list.dropWhile (shows test)) := by
  have same : shows test ∘ Cell.revealed = shows test :=
    funext (shows_revealed test)
  rw [revealed, List.dropWhile_map, same, revealed]

theorem takeWhile_revealed (test : Char → Bool) (list : List Cell) :
    (revealed list).takeWhile (shows test) =
      revealed (list.takeWhile (shows test)) := by
  have same : shows test ∘ Cell.revealed = shows test :=
    funext (shows_revealed test)
  rw [revealed, List.takeWhile_map, same, revealed]

/-- The same blanks are skipped where comments are covered. -/
theorem skipBlanks_revealed (list : List Cell) :
    skipBlanks (revealed list) = revealed (skipBlanks list) :=
  dropWhile_revealed isBlank list

theorem startsWith_revealed (test : Char → Bool) (list : List Cell) :
    startsWith test (revealed list) = startsWith test list := by
  rw [← startsWith_shownText, shownText_revealed, startsWith_shownText]

/-! ## Parts at the same places -/

/-- A part of the same length in front of the same list is the same part. -/
theorem eq_revealed_of_parts {list part rest other behind : List Cell}
    (left : list = part ++ rest) (right : revealed list = other ++ behind)
    (same : shownText other = shownText part) :
    other = revealed part ∧ behind = revealed rest := by
  have sizes : other.length = (revealed part).length := by
    rw [length_revealed, ← length_shownText, same, length_shownText]
  rw [left, revealed_append] at right
  obtain ⟨first, second⟩ := List.append_inj right.symm sizes
  exact ⟨first, second⟩

/--
Two rests that show the same text are the same rest, one of them revealed.
-/
theorem eq_revealed_of_suffix {list rest other : List Cell}
    (left : rest <:+ list) (right : other <:+ revealed list)
    (same : shownText other = shownText rest) : other = revealed rest := by
  obtain ⟨before, rfl⟩ := left
  rw [revealed_append] at right
  have sizes : other.length = (revealed rest).length := by
    rw [length_revealed, ← length_shownText, same, length_shownText]
  exact (List.suffix_of_suffix_length_le right (List.suffix_append _ _)
    sizes.le).eq_of_length sizes

/-- A head is read alike where comments are covered. -/
theorem readHead?_revealed (object : ObjectKind) (list : List Cell) :
    readHead? object (revealed list) =
      (readHead? object list).map (Prod.map id revealed) := by
  have shows := readHead?_shownText object (revealed list)
  rw [shownText_revealed, readHead?_shownText] at shows
  cases left : readHead? object list with
  | none =>
      rw [left] at shows
      exact Option.map_eq_none_iff.mp shows.symm
  | some one =>
      rw [left] at shows
      obtain ⟨⟨flags, rest⟩, right, same⟩ :=
        Option.map_eq_some_iff.mp shows.symm
      obtain ⟨rfl, seen⟩ := Prod.mk.inj same
      rw [right, eq_revealed_of_suffix (leaves_of_readHead? left).suffix
        (leaves_of_readHead? right).suffix seen]
      rfl

/-- Parentheses close at the same place where comments are covered. -/
theorem parenthesised?_revealed (list : List Cell) :
    parenthesised? (revealed list) =
      (parenthesised? list).map (Prod.map revealed revealed) := by
  have shows := parenthesised?_shownText (revealed list)
  rw [shownText_revealed, parenthesised?_shownText] at shows
  cases left : parenthesised? list with
  | none =>
      rw [left] at shows
      exact Option.map_eq_none_iff.mp shows.symm
  | some one =>
      rw [left] at shows
      obtain ⟨⟨inside, tail⟩, right, same⟩ :=
        Option.map_eq_some_iff.mp shows.symm
      obtain ⟨insides, tails⟩ := Prod.mk.inj same
      obtain ⟨first, last, parts, -, -⟩ := exists_parentheses left
      obtain ⟨opening, closing, revealedParts, -, -⟩ := exists_parentheses right
      rw [parts] at revealedParts
      obtain ⟨-, behind⟩ := List.cons.inj revealedParts
      obtain ⟨rfl, others⟩ := eq_revealed_of_parts rfl behind insides
      rw [right, (List.cons.inj others).2]
      rfl

/-- The name of an object does not depend on comments. -/
theorem nameCells_revealed (list : List Cell) :
    nameCells (revealed list) = nameCells list := by
  rw [nameCells, skipBlanks_revealed, takeWhile_revealed]
  apply revealed_eq_self
  intro cell member
  have inside := List.mem_takeWhile_imp member
  simp only [shows, endsName, Bool.not_eq_true', Bool.or_eq_false_iff] at inside
  exact inside.1.1

/-- A name is read alike where comments are covered. -/
theorem readName_revealed (object : ObjectKind) (list : List Cell) :
    readName object (revealed list) =
      (readName object list).map (Prod.map id revealed) := by
  rw [readName_eq, readName_eq, nameCells_revealed, skipBlanks_revealed,
    dropWhile_revealed]
  split
  · rfl
  · cases readSource (nameCells list) with
    | error failure => rfl
    | ok text =>
        dsimp only [bind, Except.bind]
        split <;> rfl

/-- A comment clause is found at the same place where comments are covered. -/
theorem findFirst_commentClause?_revealed (list : List Cell) :
    findFirst commentClause? [] (revealed list) =
      (findFirst commentClause? [] list).map
        (Prod.map revealed (Prod.map revealed revealed)) := by
  have shows := findFirst_shownText
    (commentClause?_shows (α := Cell)) [] (revealed list)
  rw [shownText_revealed, findFirst_shownText commentClause?_shows] at shows
  -- An occurrence lies between what was searched before it and what follows.
  have parts : ∀ {list before clause after : List Cell},
      findFirst commentClause? [] list = some (before, clause, after) →
        list = before.reverse ++ (clause ++ after) := by
    intro list before clause after found
    obtain ⟨searched, element, rest, rfl, rfl, here⟩ :=
      exists_parts_of_findFirst found
    obtain ⟨rfl, leaves⟩ := leaves_of_commentClause? here
    obtain ⟨written, whole⟩ := leaves.suffix
    rw [← whole, upTo_append]
    simp
  cases left : findFirst commentClause? [] list with
  | none =>
      rw [left] at shows
      exact Option.map_eq_none_iff.mp shows.symm
  | some one =>
      obtain ⟨before, clause, after⟩ := one
      rw [left] at shows
      obtain ⟨⟨earlier, other, behind⟩, right, same⟩ :=
        Option.map_eq_some_iff.mp shows.symm
      obtain ⟨befores, others⟩ := Prod.mk.inj same
      obtain ⟨clauses, -⟩ := Prod.mk.inj others
      have searched : shownText earlier.reverse = shownText before.reverse := by
        rw [shownText, List.map_reverse, shownText, List.map_reverse]
        exact congrArg List.reverse befores
      obtain ⟨first, rest⟩ :=
        eq_revealed_of_parts (parts left) (parts right) searched
      obtain ⟨second, third⟩ := eq_revealed_of_parts rfl rest.symm clauses
      have front : earlier = revealed before := by
        rw [← earlier.reverse_reverse, first, revealed, revealed,
          List.map_reverse, List.reverse_reverse]
      rw [right, front, second, third]
      rfl

end Lexical

end Snowform
