import Snowform.Ddl.Procedure
import Snowform.Ddl.Table
import Snowform.Proofs.Lexical.Sources
import Snowform.Proofs.Text.Searching
import Snowform.Proofs.Text.Trimming

/-!
# Clauses cut no character

The parts of a masked statement whose source is read are whole: the name, the
comment clause, the clustering keys, the return type and the body.
-/

namespace Snowform

open Text Lexical

section Leaving

variable {α : Type} [Shown α]

/-- A clause that a keyword at a word boundary starts. -/
theorem exists_keyword_of_clause? {β : Type} {word : Text}
    {next : List α → Option β} {behind ahead : List α} {found : β}
    (clause : (if isBoundary behind ahead then keyword? word ahead >>= next
      else none >>= next) = some found) :
    ∃ rest, keyword? word ahead = some rest ∧ next rest = some found := by
  split at clause
  · exact Option.bind_eq_some_iff.mp clause
  · cases clause

/-- A recogniser of occurrences that start with a letter. -/
def StartsIn {β : Type} (letter : Char) (recognise : Recogniser α β) : Prop :=
  ∀ behind element rest parts,
    recognise behind (element :: rest) = some parts →
      isKeywordLetter letter (shown element) = true

/-- What a keyword is read from starts with a letter of it. -/
theorem isKeywordLetter_of_keyword? {word : Text} {letter : Char}
    (starts : word.head? = some letter) {element : α} {rest after : List α}
    (found : keyword? word (element :: rest) = some after) :
    isKeywordLetter letter (shown element) = true := by
  cases word with
  | nil => cases starts
  | cons first letters =>
      cases starts
      rw [keyword?] at found
      split at found
      next same => exact same
      next => cases found

section

variable {β : Type} {letter : Char} {recognise : Recogniser α β}
  (starts : StartsIn letter recognise)

include starts

/-- Nothing is recognised at a character that starts differently. -/
theorem StartsIn.eq_none {element : α}
    (other : isKeywordLetter letter (shown element) = false)
    (behind rest : List α) : recognise behind (element :: rest) = none := by
  rw [Option.eq_none_iff_forall_ne_some]
  intro parts found
  have same := starts behind element rest parts found
  exact absurd (other.symm.trans same) (by decide)

variable {front : List α}
  (others : ∀ element ∈ front, isKeywordLetter letter (shown element) = false)

include others

/-- A search passes over what does not show the letter. -/
theorem StartsIn.findFirst_append (behind rest : List α) :
    findFirst recognise behind (front ++ rest) =
      findFirst recognise (front.reverse ++ behind) rest :=
  Text.findFirst_append (fun element member =>
    starts.eq_none (others element member)) behind rest

/-- Nothing is found in a front without the first letter. -/
theorem StartsIn.findFirst_eq_none (behind : List α) :
    findFirst recognise behind front = none := by
  have passed := starts.findFirst_append others behind []
  rwa [List.append_nil] at passed

theorem StartsIn.occurrences_eq_nil : occurrences recognise front = [] := by
  have passed := occurrencesFrom_append (fun element member =>
    starts.eq_none (others element member)) [] []
  rwa [List.append_nil] at passed

end

/-- A comment clause starts with its letter. -/
theorem startsIn_commentClause? :
    StartsIn 'C' (commentClause? : Recogniser α (List α)) := by
  intro behind element rest parts found
  obtain ⟨after, known, -⟩ := exists_keyword_of_clause? found
  exact isKeywordLetter_of_keyword? rfl known

theorem Table.startsIn_clusterBy? :
    StartsIn 'C' (Table.clusterBy? : Recogniser α (List α)) := by
  intro behind element rest parts found
  obtain ⟨after, known, -⟩ := exists_keyword_of_clause? found
  exact isKeywordLetter_of_keyword? rfl known

theorem Procedure.startsIn_language? :
    StartsIn 'L' (Procedure.language? : Recogniser α Text) := by
  intro behind element rest parts found
  obtain ⟨after, known, -⟩ := exists_keyword_of_clause? found
  exact isKeywordLetter_of_keyword? rfl known

theorem startsIn_asKeyword? :
    StartsIn 'A' (asKeyword? : Recogniser α Unit) := by
  intro behind element rest parts found
  obtain ⟨after, known, -⟩ := Option.map_eq_some_iff.mp found
  exact isKeywordLetter_of_keyword? rfl (keyword?_of_wholeWord? known)

theorem Procedure.startsIn_defaultKeyword? :
    StartsIn 'D' Procedure.defaultKeyword? := by
  intro behind element rest parts found
  obtain ⟨after, known, -⟩ := Option.map_eq_some_iff.mp found
  exact isKeywordLetter_of_keyword? rfl (keyword?_of_wholeWord? known)

theorem startsLoud_commentClause? :
    StartsLoud (commentClause? : Recogniser α (List α)) := by
  intro behind element rest parts found
  obtain ⟨after, known, -⟩ := exists_keyword_of_clause? found
  exact startsLoud_of_keyword? (by decide) (by decide) known

/-- A comment clause is cut out up to where the list is left. -/
theorem leaves_of_commentClause? {behind ahead clause after : List α}
    (found : commentClause? behind ahead = some (clause, after)) :
    clause = upTo ahead after ∧ Leaves ahead after := by
  obtain ⟨keyword, known, found⟩ := exists_keyword_of_clause? found
  obtain ⟨equals, equal, found⟩ := Option.bind_eq_some_iff.mp found
  obtain ⟨inside, quote, found⟩ := Option.bind_eq_some_iff.mp found
  cases found
  refine ⟨rfl, ?_⟩
  have opened : Leaves ahead inside :=
    (((leaves_of_keyword? (by decide) known).trans
      (leaves_skipBlanks keyword)).trans
        (leaves_of_character? (by decide) equal)).trans
          ((leaves_skipBlanks equals).trans
            (leaves_of_character? (by decide) quote))
  have ended := opened.trans (leaves_dropWhile (· != '\'') inside)
  cases closed : character? '\'' (inside.dropWhile (shows (· != '\''))) with
  | none => exact ended
  | some rest => exact ended.trans (leaves_of_character? (by decide) closed)

/-- A comment clause has an equals sign. -/
theorem exists_equals_of_commentClause? {behind ahead clause after : List α}
    (found : commentClause? behind ahead = some (clause, after)) :
    ∃ element ∈ ahead, shown element = '=' := by
  obtain ⟨keyword, known, found⟩ := exists_keyword_of_clause? found
  obtain ⟨equals, equal, -⟩ := Option.bind_eq_some_iff.mp found
  have start : skipBlanks keyword <:+ ahead :=
    ((leaves_of_keyword? (by decide) known).trans
      (leaves_skipBlanks keyword)).suffix
  cases blanks : skipBlanks keyword with
  | nil =>
      rw [blanks] at equal
      cases equal
  | cons element others =>
      rw [blanks, character?] at equal
      split at equal
      next same =>
        rw [blanks] at start
        exact ⟨element, start.subset List.mem_cons_self, same⟩
      next => cases equal

theorem Table.startsLoud_clusterBy? :
    StartsLoud (Table.clusterBy? : Recogniser α (List α)) := by
  intro behind element rest parts found
  obtain ⟨after, known, -⟩ := exists_keyword_of_clause? found
  exact startsLoud_of_keyword? (by decide) (by decide) known

/-- Reading a clustering clause leaves an end. -/
theorem Table.leaves_of_clusterBy? {behind ahead list inside : List α}
    (found : Table.clusterBy? behind ahead = some (list, inside)) :
    Leaves ahead list := by
  obtain ⟨cluster, known, found⟩ := exists_keyword_of_clause? found
  obtain ⟨keyword, both, found⟩ := Option.bind_eq_some_iff.mp found
  obtain ⟨word, blanks, both⟩ := Option.bind_eq_some_iff.mp both
  obtain ⟨opened, parenthesis, found⟩ := Option.bind_eq_some_iff.mp found
  cases found
  have start : Leaves ahead (skipBlanks keyword) :=
    (((leaves_of_keyword? (by decide) known).trans
      (leaves_of_blanks? blanks)).trans
        (leaves_of_keyword? (by decide) both)).trans
          (leaves_skipBlanks keyword)
  cases linear : keyword? "LINEAR" (skipBlanks keyword) with
  | none => exact start
  | some rest =>
      exact (start.trans (leaves_of_keyword? (by decide) linear)).trans
        (leaves_skipBlanks rest)

/-! ## The body -/

theorem startsLoud_asKeyword? :
    StartsLoud (asKeyword? : Recogniser α Unit) := by
  intro behind element rest parts found
  obtain ⟨after, known, -⟩ := Option.map_eq_some_iff.mp found
  exact startsLoud_of_wholeWord? (by decide) (by decide) known

/-- Reading the word in front of a body leaves an end. -/
theorem leaves_of_asKeyword? {behind ahead after : List α}
    (found : asKeyword? behind ahead = some ((), after)) :
    Leaves ahead after := by
  obtain ⟨rest, known, same⟩ := Option.map_eq_some_iff.mp found
  cases same
  exact leaves_of_wholeWord? (by decide) known

/-- The body starts behind a word, up to which the header goes. -/
theorem Procedure.exists_parts_of_findBody? {mode found : Option ExecuteAs}
    {behind list body : List α} {before : Nat}
    (first : findBody? mode behind list = some (found, before, body)) :
    ∃ searched element rest, list = searched ++ element :: rest ∧
      before = behind.length + searched.length ∧
      isFill (shown element) = false ∧ Leaves (element :: rest) body := by
  induction list generalizing mode behind with
  | nil => cases first
  | cons element rest ih =>
      have later : ∀ {mode : Option ExecuteAs},
          findBody? mode (element :: behind) rest =
            some (found, before, body) →
          ∃ searched other others,
            element :: rest = searched ++ other :: others ∧
            before = behind.length + searched.length ∧
            isFill (shown other) = false ∧ Leaves (other :: others) body := by
        intro mode next
        obtain ⟨searched, other, others, rfl, size, loud, leaves⟩ := ih next
        refine ⟨element :: searched, other, others, rfl, ?_, loud, leaves⟩
        rw [size, List.length_cons, List.length_cons]
        omega
      rw [findBody?] at first
      split at first
      next => exact later first
      next after here =>
        split at first
        · exact later first
        · cases first
          exact ⟨[], element, rest, rfl, rfl,
            startsLoud_of_wholeWord? (by decide) (by decide) here,
            leaves_of_wholeWord? (by decide) here⟩

namespace Procedure

/-- A list can be cut into a header, what introduces the body and the body. -/
structure Headed (list : List α) (before : Nat) (body : List α) : Prop where
  apart : Apart (list.take before) (list.drop before)
  leaves : Leaves list body

/-- A body that is found stands behind its header. -/
theorem headed_of_findBody? {list body : List α} {before : Nat}
    {mode : Option ExecuteAs}
    (found : findBody? none [] list = some (mode, before, body)) :
    Headed list before body := by
  obtain ⟨searched, element, rest, rfl, size, loud, leaves⟩ :=
    exists_parts_of_findBody? found
  rw [List.length_nil, Nat.zero_add] at size
  rw [size]
  constructor
  · rw [List.take_left, List.drop_left]
    exact Apart.of_next loud searched rest
  · exact (Leaves.next loud searched rest).trans leaves

/-- The header is cut out of the statement. -/
theorem Headed.cutsOut {list body : List α} {before : Nat}
    (headed : Headed list before body) : CutsOut list (list.take before) := by
  refine ⟨list.drop before, ?_, ?_⟩
  · rw [List.take_append_drop]
    exact Leaves.refl list
  · exact ⟨list.take before, rfl, headed.apart⟩

end Procedure

/-- The blanks at the end of a list can be cut off. -/
theorem exists_finalBlanks (list : List α) :
    ∃ blanks, list = dropFinalBlanks list ++ blanks ∧
      Apart (dropFinalBlanks list) blanks := by
  rw [dropFinalBlanks, dropEndWhile_eq_rdropWhile]
  refine ⟨list.rtakeWhile (shows isBlank),
    List.rdropWhile_append_rtakeWhile.symm, ?_⟩
  intro last isLast next isNext same
  have blank : isBlank (shown next) = true :=
    List.mem_rtakeWhile_imp (p := shows isBlank)
      (List.mem_of_mem_head? isNext)
  have nonempty := List.ne_nil_of_mem (List.mem_of_mem_getLast? isLast)
  have visible := List.rdropWhile_last_not (shows isBlank) list nonempty
  rw [List.getLast?_eq_some_getLast nonempty, Option.mem_some_iff] at isLast
  rw [isLast, shows, same] at visible
  exact absurd blank visible

/-- What is left of a list without its final blanks ends visibly. -/
theorem exists_visible_of_dropFinalBlanks {list : List α}
    (nonempty : dropFinalBlanks list ≠ []) :
    ∃ element ∈ dropFinalBlanks list, isBlank (shown element) = false := by
  rw [dropFinalBlanks, dropEndWhile_eq_rdropWhile] at nonempty ⊢
  have visible := List.rdropWhile_last_not (shows isBlank) list nonempty
  exact ⟨_, List.getLast_mem nonempty, Bool.eq_false_iff.mpr visible⟩

end Leaving

/-! ## Parts that can be cut out -/

section Cutting

variable {α : Type} [Shown α]

/-- What is taken by its look is cut out. -/
theorem cutsOut_takeWhile (test : Char → Bool) (list : List α) :
    CutsOut list (list.takeWhile (shows test)) := by
  refine ⟨list.dropWhile (shows test), ?_, ?_⟩
  · rw [List.takeWhile_append_dropWhile]
    exact Leaves.refl list
  · exact ⟨list.takeWhile (shows test), rfl, apart_dropWhile test list⟩

/-- What is left without final blanks is cut out. -/
theorem cutsOut_dropFinalBlanks (list : List α) :
    CutsOut list (dropFinalBlanks list) := by
  obtain ⟨blanks, parts, apart⟩ := exists_finalBlanks list
  refine ⟨blanks, ?_, ⟨_, rfl, apart⟩⟩
  rw [← parts]
  exact Leaves.refl list

/-- A comment clause can be cut out where it is found. -/
theorem cutsOut_of_findFirst_commentClause? {list before clause after : List α}
    (found : findFirst commentClause? [] list = some (before, clause, after)) :
    CutsOut list clause := by
  obtain ⟨here, leaves, -, found⟩ :=
    leaves_of_findFirst startsLoud_commentClause? found
  obtain ⟨rfl, further⟩ := leaves_of_commentClause? found
  exact CutsOut.of_leaves leaves further

/-- There is no comment where no equals sign is shown. -/
theorem findComment_eq_none {list : List Cell}
    (absent : ∀ cell ∈ list, shown cell ≠ '=') :
    findComment list = .ok none := by
  cases found : findFirst commentClause? [] list with
  | none => rw [findComment, found]
  | some parts =>
      obtain ⟨here, leaves, -, clause⟩ :=
        leaves_of_findFirst startsLoud_commentClause? found
      obtain ⟨cell, member, equals⟩ := exists_equals_of_commentClause? clause
      exact absurd equals (absent cell (leaves.suffix.subset member))

/-- Clustering keys can be cut out where their clause is found. -/
theorem cutsOut_of_findFirst_clusterBy? {list before keys after inside tail :
      List α}
    (found : findFirst Table.clusterBy? [] list = some (before, keys, after))
    (closed : parenthesised? keys = some (inside, tail)) :
    CutsOut list inside := by
  obtain ⟨here, leaves, -, clause⟩ :=
    leaves_of_findFirst Table.startsLoud_clusterBy? found
  exact (cutsOut_of_parenthesised? closed).behind
    (leaves.trans (Table.leaves_of_clusterBy? clause))

/-- The type of a return clause stands behind its keyword. -/
theorem leaves_of_findFirst_returns? {header before word : List α}
    (found : findFirst Procedure.returns? [] header = some (before, (), word)) :
    Leaves header word := by
  obtain ⟨searched, element, rest, -, parts, here⟩ :=
    exists_parts_of_findFirst found
  obtain ⟨keyword, known, here⟩ := exists_keyword_of_clause? here
  obtain ⟨start, blanks, here⟩ := Option.bind_eq_some_iff.mp here
  split at here
  next =>
    cases here
    have loud := startsLoud_of_keyword? (by decide) (by decide) known
    rw [parts]
    exact (Leaves.next loud searched rest).trans
      ((leaves_of_keyword? (by decide) known).trans
        (leaves_of_blanks? blanks))
  next => cases here

/-- A return type can be cut out of a header and what it stands before. -/
theorem cutsOut_of_returnType? {header behind type : List α}
    (apart : Apart header behind)
    (found : Procedure.returnType? header (header ++ behind) = some type) :
    CutsOut (header ++ behind) type := by
  obtain ⟨⟨before, _, word⟩, first, found⟩ := Option.bind_eq_some_iff.mp found
  dsimp only at found
  have leaves := leaves_of_findFirst_returns? first
  have wordLeaves := leaves.append_of_apart apart
  have after := leaves_dropWhile Procedure.continuesTypeWord word
  have list := leaves.trans (after.trans (leaves_skipBlanks _))
  simp only [leaves.drop_append, list.drop_append] at found
  split at found
  next opens =>
    obtain ⟨⟨inside, tail⟩, closed, found⟩ :=
      Option.bind_eq_some_iff.mp found
    cases found
    have nonempty : skipBlanks (word.dropWhile
        (shows Procedure.continuesTypeWord)) ≠ [] := by
      intro empty
      rw [empty] at opens
      cases opens
    have here := (after.trans (leaves_skipBlanks _)).append nonempty behind
    exact CutsOut.of_leaves wordLeaves
      (here.trans (leaves_tail_of_parenthesised? closed))
  next =>
    cases found
    obtain ⟨earlier, rfl, -⟩ := leaves
    have ended := after.append_of_apart apart.of_append
    have cuts := CutsOut.of_leaves wordLeaves ended
    rwa [upTo_append_append after.suffix] at cuts

/-- The type that a procedure returns is cut out of the statement. -/
theorem Procedure.Headed.cutsOut_returnType? {list body type : List α}
    {before : Nat} (headed : Headed list before body)
    (found : returnType? (list.take before) list = some type) :
    CutsOut list type := by
  have named : returnType? (list.take before)
      (list.take before ++ list.drop before) = some type := by
    rw [List.take_append_drop]
    exact found
  have cuts := cutsOut_of_returnType? headed.apart named
  rwa [List.take_append_drop] at cuts

end Cutting

/-! ## Whole parts -/

namespace Whole

/-- The front of whole cells, told by its look, is whole. -/
theorem takeWhile {list : List Cell} (whole : Whole list)
    (test : Char → Bool) : Whole (list.takeWhile (shows test)) :=
  whole.of_cutsOut (cutsOut_takeWhile test list)

/-- Whole cells stay whole without their final blanks. -/
theorem dropFinalBlanks {list : List Cell} (whole : Whole list) :
    Whole (Snowform.dropFinalBlanks list) :=
  whole.of_cutsOut (cutsOut_dropFinalBlanks list)

/-- The inside of parentheses and what follows them are whole. -/
theorem inside {list inside tail : List Cell} (whole : Whole list)
    (found : parenthesised? list = some (inside, tail)) :
    Whole inside ∧ Whole tail :=
  ⟨whole.of_cutsOut (cutsOut_of_parenthesised? found),
    whole.of_leaves (leaves_tail_of_parenthesised? found)⟩

end Whole

end Snowform
