import Snowform.Proofs.Ddl.Derived
import Mathlib.Data.List.TakeDrop

/-!
# Counting without going below zero

Some counts of the readers are differences.  A parenthesis that closes takes
one off the number of open ones; a reference takes as many words of a column
as are not left behind it.  `countedClosing?` keeps the first count as it is
kept step by step, with no result where it would go below zero; there always
is one, namely that of `closing?`.

The number at the end of the name of a constraint grows with the constraints
before it, of which a column list has no more than characters.
-/

namespace Snowform

open Text Lexical

/-! ## Open parentheses -/

namespace Lexical

variable {α : Type} [Shown α]

/--
Split at the closing parenthesis behind which no parenthesis is open, where a
number of them is open already.  There is no result when a parenthesis would
be closed that is not open.
-/
def countedClosing? (quote : Option Char) (opened : Nat) :
    List α → Option (Option (List α × List α))
  | [] => some none
  | element :: rest =>
      let keep := Option.map fun (parts : List α × List α) =>
        (element :: parts.1, parts.2)
      match quote with
      | some mark =>
          if shown element = mark then
            (countedClosing? none opened rest).map keep
          else
            (countedClosing? (some mark) opened rest).map keep
      | none =>
          if shown element = '\'' ∨ shown element = '"' then
            (countedClosing? (some (shown element)) opened rest).map keep
          else if shown element = '(' then
            (countedClosing? none (opened + 1) rest).map keep
          else if shown element = ')' then
            match opened with
            | 0 => none
            | 1 => some (some ([], rest))
            | outer + 2 => (countedClosing? none (outer + 1) rest).map keep
          else
            (countedClosing? none opened rest).map keep

/-- While a parenthesis is open the count does not go below zero. -/
theorem countedClosing?_succ (quote : Option Char) (depth : Nat)
    (list : List α) :
    countedClosing? quote (depth + 1) list =
      some (closing? quote depth list) := by
  induction list generalizing quote depth with
  | nil => rfl
  | cons element rest ih =>
      cases quote with
      | some mark =>
          simp only [countedClosing?, closing?, ih]
          split <;> rfl
      | none =>
          cases depth with
          | zero =>
              simp only [countedClosing?, closing?, ih]
              split_ifs <;> rfl
          | succ outer =>
              simp only [countedClosing?, closing?, ih]
              split_ifs <;> rfl

/-- Counting from an opening parenthesis on finds what it encloses. -/
theorem countedClosing?_of_opening {first : α} (opens : shown first = '(')
    (rest : List α) :
    countedClosing? none 0 (first :: rest) =
      some ((parenthesised? (first :: rest)).map fun parts =>
        (first :: parts.1, parts.2)) := by
  have plain : ¬ (shown first = '\'' ∨ shown first = '"') := by
    rw [opens]
    decide
  have found : parenthesised? (first :: rest) = closing? none 0 rest := by
    rw [parenthesised?, character?, if_pos opens]
    rfl
  rw [countedClosing?, if_neg plain, if_pos opens, countedClosing?_succ, found]
  rfl

end Lexical

/-! ## Words behind a reference -/

theorem suffix_of_readReferences? {text rest : Text}
    {target : ForeignKeyTarget}
    (read : readReferences? text = .ok (some (target, rest))) :
    rest <:+ text := by
  rw [readReferences?] at read
  dsimp only at read
  split at read
  next => cases read
  next start found =>
    have after := (afterTarget_suffix .fresh start).trans
      ((leaves_skipBlanks text).trans
        (leaves_of_keyword_blanks? (by decide) found)).suffix
    split at read
    · cases read
    · split at read
      next => cases read
      next written =>
        split at read
        · obtain ⟨⟨inside, tail⟩, closed, same⟩ :=
            Option.map_eq_some_iff.mp (Except.ok.inj read)
          cases same
          exact ((leaves_skipBlanks _).trans
            (leaves_tail_of_parenthesised? closed)).suffix.trans after
        · cases read
          exact after

/-- No more words are left behind a reference than it was read from. -/
theorem length_words_of_readReferences? {text rest : Text}
    {list : List Text} {target : ForeignKeyTarget}
    (some : list <:+: words text)
    (read : readReferences? ([' '].intercalate list) =
      .ok (.some (target, rest))) :
    (words rest).length ≤ list.length := by
  have fewer := length_words_of_suffix (suffix_of_readReferences? read)
  rwa [words_intercalate fun word member =>
    isWord_of_mem_words (some.subset member)] at fewer

/-! ## Numbered names -/

theorem freshNumberFrom_le (number : Nat) (endings : List Text)
    (tries : Nat) : freshNumberFrom number endings tries ≤ number + tries := by
  induction tries generalizing number endings with
  | zero => exact Nat.le_refl number
  | succ tries ih =>
      rw [freshNumberFrom]
      split
      · have later := ih (number + 1) (endings.erase (decimal number))
        omega
      · exact Nat.le_add_right number (tries + 1)

/-- A name is numbered at most two higher than there are names before it. -/
theorem freshNumber_le (used : List Text) (stem : Text) :
    freshNumber (used.filterMap (dropStart? stem)) ≤ used.length + 2 := by
  have bounded := freshNumberFrom_le 2 (used.filterMap (dropStart? stem))
    (used.filterMap (dropStart? stem)).length
  have fewer := List.length_filterMap_le (dropStart? stem) used
  rw [freshNumber]
  omega

/-! ## Numbers of constraints -/

theorem leadingIdentifier_suffix (text : Text) :
    (leadingIdentifier text).2 <:+ text := by
  have start : trimStart text <:+ text := List.dropWhile_suffix _
  rw [leadingIdentifier]
  split
  next rest quoted =>
    rw [quoted] at start
    exact ((List.drop_suffix _ rest).trans (List.suffix_cons '"' rest)).trans
      start
  next =>
    rw [List.span_eq_takeWhile_dropWhile]
    exact (List.dropWhile_suffix _).trans start

namespace Column

theorem extendType_suffix (dataType : Text) (list : List Text) :
    (extendType dataType list).2 <:+ list := by
  induction list generalizing dataType with
  | nil => exact List.suffix_rfl
  | cons word others ih =>
      rw [extendType]
      split
      · exact (ih _).trans (List.suffix_cons word others)
      · split
        · exact (ih _).trans (List.suffix_cons word others)
        · exact List.suffix_rfl

theorem readType_suffix (first : Text) (others : List Text) :
    (readType first others).2 <:+ others := by
  cases others with
  | nil => exact extendType_suffix first []
  | cons second rest =>
      rw [readType]
      split
      · exact (extendType_suffix _ rest).trans (List.suffix_cons second rest)
      · exact extendType_suffix first _

namespace Progress

/-- The constraints that an entry has so far. -/
def constraints (progress : Progress) : List DraftConstraint :=
  progress.entry.constraints

theorem length_addConstraint (progress : Progress) (kind : ConstraintKind)
    (references : Option ForeignKeyTarget) :
    (progress.addConstraint kind references).constraints.length =
      progress.constraints.length + 1 :=
  List.length_append

theorem length_readFlag? {progress changed : Progress} {word : Text}
    {next : Option Text} {both : Bool}
    (read : progress.readFlag? word next = some (changed, both)) :
    changed.constraints.length = progress.constraints.length := by
  rw [readFlag?] at read
  split at read
  next => cases read
  next last earlier order =>
    obtain ⟨⟨flags, used⟩, -, same⟩ := Option.map_eq_some_iff.mp read
    cases same
    have sizes := congrArg List.length order
    rw [List.length_reverse, List.length_cons] at sizes
    rw [constraints, constraints, List.length_append, List.length_reverse,
      List.length_singleton, sizes]

theorem length_readOther (progress : Progress) (word : Text)
    (others : List Text) :
    (progress.readOther word others).1.constraints.length =
      progress.constraints.length := by
  rw [readOther]
  split
  next changed both flag => exact length_readFlag? flag
  next => rfl

/-- An option adds at most one constraint. -/
theorem length_readOption {progress changed : Progress} {word : Text}
    {others : List Text} {count : Nat}
    (read : progress.readOption word others = .ok (changed, count)) :
    changed.constraints.length ≤ progress.constraints.length + 1 := by
  have option := progress.optionRead_readOption word others
  rw [read] at option
  generalize result : Except.ok (changed, count) = reading at option
  cases option with
  | kept same =>
      cases result
      exact (congrArg List.length same).le.trans (Nat.le_succ _)
  | added kind references number =>
      cases result
      exact (progress.length_addConstraint kind references).le
  | other =>
      have same := progress.length_readOther word others
      rw [← Except.ok.inj result] at same
      exact same.le.trans (Nat.le_succ _)

theorem length_readOptions {progress changed : Progress} {used : Nat}
    {list : List Text} (read : progress.readOptions used list = .ok changed) :
    changed.constraints.length ≤ progress.constraints.length + list.length := by
  induction list generalizing progress used with
  | nil =>
      cases read
      exact Nat.le_refl _
  | cons word others ih =>
      rw [List.length_cons]
      cases used with
      | succ remaining =>
          have later := ih read
          omega
      | zero =>
          rw [readOptions, bind_eq_ok_iff] at read
          obtain ⟨⟨next, count⟩, option, read⟩ := read
          have here := length_readOption option
          have later := ih read
          omega

end Progress

/-- An entry has no more constraints than characters. -/
theorem length_constraints_of_read? {entry : Text} {column : ColumnEntry}
    (read : Column.read? entry = .ok (some column)) :
    column.constraints.length ≤ entry.length := by
  rw [read?] at read
  split at read
  next name first others parts =>
    dsimp only at read
    obtain ⟨progress, options, read⟩ := bind_eq_ok_iff.mp read
    cases read
    have bounded := Progress.length_readOptions options
    have suffix := (readType_suffix first others).length_le
    have listed : others.length ≤ entry.length := by
      have trimmed : (trim entry).length ≤ entry.length := by
        have whole := congrArg List.length (leading_trim_trailing entry)
        rw [List.length_append, List.length_append] at whole
        omega
      have rest := (leadingIdentifier_suffix (trim entry)).length_le
      have spread := length_words_le (leadingIdentifier (trim entry)).2
      rw [entryWords] at parts
      dsimp only at parts
      split at parts
      · cases parts
      · have counted := congrArg List.length (List.cons.inj parts).2
        rw [List.length_cons] at counted
        omega
    exact (bounded.trans_eq (Nat.zero_add _)).trans (suffix.trans listed)
  next => cases read

end Column

namespace Table.Contents

theorem length_addConstraints (table : Text) (contents : Contents)
    (drafts : List DraftConstraint) :
    (contents.addConstraints table drafts).constraints.length =
      contents.constraints.length + drafts.length := by
  induction drafts generalizing contents with
  | nil => rfl
  | cons draft others ih =>
      rw [addConstraints, List.foldl_cons, ← addConstraints, ih,
        List.length_append, List.length_singleton, List.length_cons]
      omega

theorem length_readColumn {table entry : Text} {contents changed : Contents}
    (read : contents.readColumn table entry = .ok changed) :
    changed.constraints.length ≤
      contents.constraints.length + entry.length := by
  rw [readColumn] at read
  obtain ⟨column, known, read⟩ := bind_eq_ok_iff.mp read
  cases column with
  | none =>
      cases read
      exact Nat.le_add_right _ _
  | some column =>
      cases read
      have bounded := Column.length_constraints_of_read? known
      rw [addColumn, length_addConstraints]
      exact Nat.add_le_add_left bounded _

theorem length_readEntry {table entry : Text} {contents changed : Contents}
    (nonempty : entry ≠ [])
    (read : contents.readEntry table entry = .ok changed) :
    changed.constraints.length ≤
      contents.constraints.length + entry.length := by
  rw [readEntry] at read
  split at read
  next =>
    obtain ⟨draft, -, read⟩ := bind_eq_ok_iff.mp read
    cases draft with
    | some draft =>
        cases read
        rw [length_addConstraints]
        exact Nat.add_le_add_left (List.length_pos_iff.mpr nonempty) _
    | none =>
        dsimp only at read
        split at read
        next =>
          cases read
          exact Nat.le_add_right _ _
        next => exact length_readColumn read
  next => exact length_readColumn read

/-- A column list has no more constraints than characters. -/
theorem length_constraints_of_read {table list : Text} {contents : Contents}
    (read : read table list = .ok contents) :
    contents.constraints.length ≤ list.length := by
  have step : ∀ (entries : List Text) (start : Contents),
      (∀ entry ∈ entries, entry ≠ []) →
      entries.foldlM (readEntry table) start = .ok contents →
        contents.constraints.length + entries.length ≤
          start.constraints.length + spread entries := by
    intro entries
    induction entries with
    | nil =>
        intro start _ result
        cases result
        exact Nat.le_refl _
    | cons entry others ih =>
        intro start filled result
        rw [List.forall_mem_cons] at filled
        rw [List.foldlM_cons, bind_eq_ok_iff] at result
        obtain ⟨next, here, result⟩ := result
        have first := length_readEntry filled.1 here
        have later := ih next filled.2 result
        rw [List.length_cons, spread_cons]
        omega
  have filled : ∀ entry ∈ splitCommas (stripComments list), entry ≠ [] := by
    intro entry member
    have kept := (List.mem_filter.mp member).2
    rintro rfl
    cases kept
  have bounded := step _ {} filled read
  have room := spread_splitCommas (stripComments list)
  have shorter := length_stripComments list
  have none : ({} : Contents).constraints.length = 0 := rfl
  cases entries : splitCommas (stripComments list) with
  | nil =>
      rw [entries, spread_nil, List.length_nil] at bounded
      omega
  | cons first others =>
      rw [entries, List.length_cons] at bounded
      rw [entries] at room
      omega

end Table.Contents

/-- A column list leaves room for its parentheses. -/
theorem Table.HasList.length_add_two_le {statement written : Text}
    {name : QualifiedName} (list : HasList statement name written) :
    written.length + 2 ≤ byteSize statement := by
  obtain ⟨inside, tail, ⟨start, rest, named, closed⟩, source⟩ := list
  have listed : Listed statement name inside tail := ⟨start, rest, named, closed⟩
  have shown : shownBytes inside = byteSize written :=
    shownBytes_eq_byteSize ((whole_cells statement).of_cutsOut listed.leaves.1)
      (sourceOf_eq_ok_iff.mp source)
  have leaves := (named.leaves.1.trans named.leaves.2).trans
    (leaves_skipBlanks rest)
  obtain ⟨before, whole, -⟩ := leaves
  obtain ⟨first, last, parts, -⟩ := exists_parentheses closed
  have size := shownBytes_eq_byteSize (whole_cells statement)
    (source?_cells statement)
  rw [whole, parts, shownBytes, coveredSize_append, coveredSize_cons,
    coveredSize_append, coveredSize_cons, ← shownBytes, ← shownBytes, shown]
    at size
  have opening := Cell.width_pos first
  have closing := Cell.width_pos last
  have bytes := length_le_byteSize written
  omega

end Snowform
