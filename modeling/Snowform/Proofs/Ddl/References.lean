import Snowform.Ddl.Table
import Snowform.Proofs.Ddl.Reading
import Snowform.Proofs.Lexical.Leaving
import Snowform.Proofs.Lexical.Rescanning
import Snowform.Proofs.Text.Bytes

/-!
# Where reading a reference breaks

The keyword of a reference is cut off by its width in bytes.  It is that wide
in every spelling but one: the last letter may be a long s, which is two
bytes wide, and then the cut lies inside it.

Columns spell the keyword in ASCII letters, so only a foreign key that is an
entry of its own can break.
-/

namespace Snowform

open Text Lexical

namespace Lexical

/-! ## Spellings of keywords -/

/-- What a keyword was spelled with, letter by letter. -/
theorem exists_spelling {α : Type} [Shown α] {word : Text} {list rest : List α}
    (found : keyword? word list = some rest) :
    ∃ spelling, list = spelling ++ rest ∧
      List.Forall₂ (fun letter element =>
        isKeywordLetter letter (shown element) = true) word spelling := by
  induction word generalizing list with
  | nil =>
      cases found
      exact ⟨[], rfl, .nil⟩
  | cons letter letters ih =>
      cases list with
      | nil => cases found
      | cons element others =>
          rw [keyword?] at found
          split at found
          next same =>
            obtain ⟨spelling, rfl, letters⟩ := ih found
            exact ⟨element :: spelling, rfl, .cons same letters⟩
          next => cases found

/-- A capital that has only ASCII spellings. -/
def isPlainCapital (letter : Char) : Bool :=
  letter.isUpper && letter != 'S' && letter != 'K'

theorem utf8Size_of_toUpper {letter character : Char}
    (capital : letter.isUpper = true) (same : character.toUpper = letter) :
    character.utf8Size = 1 := by
  apply if_pos
  by_cases lower : character.val ≥ 97 ∧ character.val ≤ 122
  · exact UInt32.le_trans lower.2 (by decide)
  · have unchanged : character.toUpper = character := dif_neg lower
    rw [unchanged] at same
    rw [same]
    exact UInt32.le_trans (of_decide_eq_true capital).2 (by decide)

theorem utf8Size_of_isKeywordLetter {letter character : Char}
    (plain : isPlainCapital letter = true)
    (same : isKeywordLetter letter character = true) :
    character.utf8Size = 1 := by
  simp only [isPlainCapital, Bool.and_eq_true, bne_iff_ne] at plain
  obtain ⟨⟨capital, notS⟩, notK⟩ := plain
  simp only [isKeywordLetter, beq_iff_eq, Bool.or_eq_true, Bool.and_eq_true,
    notS, notK, false_and, or_false] at same
  exact utf8Size_of_toUpper capital same

theorem byteSize_spelling {word spelling : Text}
    (plain : word.all isPlainCapital = true)
    (spelled : List.Forall₂ (fun letter character =>
      isKeywordLetter letter character = true) word spelling) :
    byteSize spelling = word.length := by
  induction spelled with
  | nil => rfl
  | cons same letters ih =>
      rw [List.all_cons, Bool.and_eq_true] at plain
      rw [byteSize_cons, utf8Size_of_isKeywordLetter plain.1 same, ih plain.2,
        List.length_cons, Nat.add_comm]

theorem keyword?_append (first second list : Text) :
    keyword? (first ++ second) list = keyword? first list >>= keyword? second := by
  induction first generalizing list with
  | nil => rfl
  | cons letter letters ih =>
      cases list with
      | nil => rfl
      | cons character others =>
          rw [List.cons_append, keyword?, keyword?, ih]
          split <;> rfl

end Lexical

/-! ## References -/

theorem afterTarget_suffix (state : TargetState) (text : Text) :
    afterTarget state text <:+ text := by
  induction text generalizing state with
  | nil => exact List.suffix_rfl
  | cons character rest ih =>
      have later : ∀ next, afterTarget next rest <:+ character :: rest :=
        fun next => (ih next).trans (List.suffix_cons character rest)
      cases state with
      | quoted => exact later _
      | bare =>
          rw [afterTarget]
          split
          · exact List.suffix_rfl
          · exact later _
      | fresh =>
          rw [afterTarget]
          split
          · exact List.suffix_rfl
          · split
            · exact later _
            · exact later _

/-- A text that starts with `REFERENCES`, its last letter being a long s. -/
def StartsLongReference (text : Text) : Prop :=
  ∃ rest, keyword? "REFERENCE" (skipBlanks text) = some ('ſ' :: rest)

/-- The keyword of a reference is cut off unless it ends with a long s. -/
theorem dropBytes?_keyword {spelling : Text} {last : Char}
    (spelled : List.Forall₂ (fun letter character =>
      isKeywordLetter letter character = true) ("REFERENCE" : Text) spelling)
    (same : isKeywordLetter 'S' last = true) (short : last ≠ 'ſ')
    (rest : Text) :
    dropBytes? referencesWidth (spelling ++ last :: rest) = some rest := by
  have upper : last.toUpper = 'S' := by
    simpa [isKeywordLetter, short] using same
  have width : byteSize (spelling ++ [last]) = referencesWidth := by
    rw [byteSize_append, byteSize_spelling (by decide) spelled, byteSize_cons,
      utf8Size_of_toUpper (by decide) upper]
    rfl
  have cut := dropBytes?_byteSize (spelling ++ [last]) rest
  rwa [List.append_assoc, List.singleton_append, width] at cut

theorem startsLongReference_of_readReferences? {text : Text} {fault : Fault}
    (broken : readReferences? text = .error fault) :
    StartsLongReference text := by
  have words : ("REFERENCES" : Text) = ("REFERENCE" : Text) ++ ['S'] := rfl
  rw [readReferences?, words, keyword?_append] at broken
  dsimp only at broken
  split at broken
  next => cases broken
  next target found =>
    obtain ⟨behind, both, blanks⟩ := Option.bind_eq_some_iff.mp found
    obtain ⟨middle, nine, letter⟩ := Option.bind_eq_some_iff.mp both
    cases middle with
    | nil => cases letter
    | cons last rest =>
        rw [keyword?] at letter
        split at letter
        next same =>
          change isKeywordLetter 'S' last = true at same
          cases letter
          by_cases short : last = 'ſ'
          · rw [short] at nine
            exact ⟨_, nine⟩
          · exfalso
            obtain ⟨spelling, start, spelled⟩ := exists_spelling nine
            obtain ⟨skipped, parts, -⟩ := leaves_of_blanks? blanks
            obtain ⟨read, ends⟩ := afterTarget_suffix .fresh target
            have whole : skipBlanks text = spelling ++
                last :: (skipped ++ read) ++ afterTarget .fresh target := by
              rw [start, parts]
              conv_lhs => rw [← ends]
              simp only [List.append_assoc, List.cons_append]
            split at broken
            · cases broken
            · rw [whole, upTo_append,
                dropBytes?_keyword spelled same short] at broken
              dsimp only at broken
              split at broken <;> cases broken
        next => cases letter

/-! ## Columns -/

theorem intercalate_blank_cons (word : Text) (others : List Text) :
    ∃ more, [' '].intercalate (word :: others) = word ++ more := by
  cases others with
  | nil => exact ⟨[], by simp [List.intercalate]⟩
  | cons next rest =>
      exact ⟨' ' :: [' '].intercalate (next :: rest),
        by simp [List.intercalate]⟩

/-- A keyword in ASCII letters does not end with a long s. -/
theorem not_startsLongReference {word : Text}
    (upper : asciiUpper word = "REFERENCES") (others : List Text) :
    ¬ StartsLongReference ([' '].intercalate (word :: others)) := by
  rintro ⟨rest, found⟩
  obtain ⟨more, whole⟩ := intercalate_blank_cons word others
  rw [whole] at found
  have length : word.length = 10 := by
    have sizes := congrArg List.length upper
    rwa [asciiUpper, List.length_map] at sizes
  obtain ⟨first, tail, rfl⟩ : ∃ first tail, word = first :: tail := by
    cases word with
    | nil => cases length
    | cons first tail => exact ⟨first, tail, rfl⟩
  have visible : isBlank first = false := by
    rw [Bool.eq_false_iff]
    intro blank
    have same : first.toUpper = 'R' := (List.cons.inj upper).1
    rw [toUpper_of_isBlank blank] at same
    rw [same] at blank
    exact absurd blank (by decide)
  have start : skipBlanks (first :: tail ++ more) = first :: tail ++ more :=
    List.dropWhile_cons_of_neg (Bool.eq_false_iff.mp visible)
  obtain ⟨spelling, parts, spelled⟩ := exists_spelling found
  have nine : spelling.length = 9 := spelled.length_eq.symm
  rw [start] at parts
  have seen : (first :: tail)[9]? = some 'ſ' := by
    have here : (first :: tail ++ more)[9]? =
        (spelling ++ 'ſ' :: rest)[9]? := by
      rw [parts]
    rw [List.getElem?_append_left (by omega),
      List.getElem?_append_right (by omega), nine] at here
    exact here
  have capital : ((first :: tail).map Char.toUpper)[9]? = some 'S' := by
    rw [← asciiUpper, upper]
    rfl
  rw [List.getElem?_map, seen] at capital
  exact absurd capital (by decide)

namespace Column.Progress

/-- What reading an option comes to, given what was read before it. -/
inductive OptionRead (progress : Progress) (word : Text)
    (others : List Text) : Except Fault (Progress × Nat) → Prop where
  | kept {changed : Progress} {count : Nat}
      (same : changed.entry.constraints = progress.entry.constraints) :
      OptionRead progress word others (.ok (changed, count))
  | added (kind : ConstraintKind) (references : Option ForeignKeyTarget)
      (count : Nat) :
      OptionRead progress word others
        (.ok (progress.addConstraint kind references, count))
  | other : OptionRead progress word others (.ok (progress.readOther word others))

/-- Every option of a column is read without a fault. -/
theorem optionRead_readOption (progress : Progress) (word : Text)
    (others : List Text) :
    OptionRead progress word others (progress.readOption word others) := by
  rw [readOption]
  dsimp only
  refine iteInduction (fun notNull => .kept rfl) fun _ => ?_
  refine iteInduction (fun null => .kept rfl) fun _ => ?_
  refine iteInduction (fun default => .kept rfl) fun _ => ?_
  refine iteInduction (fun comment => .kept rfl) fun _ => ?_
  refine iteInduction (fun collate => .kept rfl) fun _ => ?_
  refine iteInduction (fun named => .kept rfl) fun _ => ?_
  refine iteInduction (fun primary => .added _ _ _) fun _ => ?_
  refine iteInduction (fun unique => .added _ _ _) fun _ => ?_
  refine iteInduction (fun references => ?_) fun _ => .other
  cases read : readReferences? ([' '].intercalate (word :: others)) with
  | error fault =>
      exact absurd (startsLongReference_of_readReferences? read)
        (not_startsLongReference references others)
  | ok parts =>
      cases parts with
      | none => exact .kept rfl
      | some target => exact .added _ _ _

theorem exists_readOptions (progress : Progress) (used : Nat)
    (list : List Text) :
    ∃ result, progress.readOptions used list = .ok result := by
  induction list generalizing progress used with
  | nil => exact ⟨progress, rfl⟩
  | cons word others ih =>
      cases used with
      | succ used => exact ih progress used
      | zero =>
          rw [readOptions]
          have option := progress.optionRead_readOption word others
          generalize progress.readOption word others = result at option ⊢
          cases option <;> exact ih _ _

end Column.Progress

/-- Every entry is read as a column without a fault. -/
theorem Column.exists_read? (entry : Text) :
    ∃ result, Column.read? entry = .ok result := by
  rw [read?]
  split
  next name first others _ =>
    cases readType first others with
    | mk dataType options =>
        obtain ⟨progress, read⟩ := Progress.exists_readOptions
          ⟨⟨{ name := unquote name, dataType := dataType }, [], []⟩, none⟩ 0
          options
        refine ⟨some progress.entry, ?_⟩
        dsimp only
        rw [read]
        rfl
  next => exact ⟨none, rfl⟩

/-! ## Constraints -/

/-- A text in which a reference is introduced by a long s. -/
def HasLongReference (text : Text) : Prop :=
  ∃ tail, tail <:+ text ∧ StartsLongReference tail

theorem afterQuotedName?_suffix {begun : Bool} {text rest : Text}
    (found : afterQuotedName? begun text = some rest) : rest <:+ text := by
  fun_induction afterQuotedName? begun text generalizing rest
  case case1 => cases found
  case case2 =>
    cases found
    exact List.nil_suffix
  case case3 => cases found
  case case4 further ih =>
    cases found
    exact (ih further).trans
      ((List.suffix_cons _ _).trans (List.suffix_cons _ _))
  case case5 =>
    cases found
    exact List.suffix_cons _ _
  case case6 => cases found
  case case7 =>
    cases found
    exact List.suffix_cons _ _
  case case8 => cases found
  case case9 ih => exact (ih found).trans (List.suffix_cons _ _)

theorem afterConstraintName?_suffix {text rest : Text}
    (found : afterConstraintName? text = some rest) : rest <:+ text := by
  have bare : ∀ {after : Text},
      (if (text.dropWhile fun character => !endsBareName character).length =
          text.length then none
        else some (text.dropWhile fun character => !endsBareName character)) =
        some after → after <:+ text := by
    intro after plain
    split at plain
    · cases plain
    · cases plain
      exact List.dropWhile_suffix _
  unfold afterConstraintName? at found
  dsimp only at found
  split at found
  next quoted =>
    rcases Option.or_eq_some_iff.mp found with name | ⟨-, plain⟩
    · exact (afterQuotedName?_suffix name).trans (List.suffix_cons _ _)
    · exact bare plain
  next => exact bare found

theorem readConstraintName_suffix (entry : Text) :
    (readConstraintName entry).2 <:+ entry := by
  rw [readConstraintName]
  split
  next => exact List.suffix_rfl
  next named found =>
    have start := (leaves_of_keyword_blanks? (by decide) found).suffix
    split
    next => exact List.suffix_rfl
    next after name =>
      exact ((leaves_skipBlanks after).suffix.trans
        (afterConstraintName?_suffix name)).trans start

theorem suffix_of_map_skipBlanks {text inside : Text} {rest : Option Text}
    (equal : rest.map skipBlanks = some inside)
    (suffix : ∀ after, rest = some after → after <:+ text) :
    inside <:+ text := by
  obtain ⟨after, known, blanks⟩ := Option.map_eq_some_iff.mp equal
  rw [← blanks]
  exact (leaves_skipBlanks after).suffix.trans (suffix after known)

theorem suffix_of_keywords? {first second text after : Text}
    (loud : IsLoud first) (loudSecond : IsLoud second)
    (known : (keyword? first text >>= blanks? >>= keyword? second) =
      some after) : after <:+ text := by
  obtain ⟨behind, start, last⟩ := Option.bind_eq_some_iff.mp known
  exact ((leaves_of_keyword_blanks? loud start).trans
    (leaves_of_keyword? loudSecond last)).suffix

theorem readConstraintKind?_suffix {text list : Text} {kind : ConstraintKind}
    (found : readConstraintKind? text = some (kind, list)) :
    list <:+ text := by
  simp only [readConstraintKind?, Option.or_eq_some_iff] at found
  rcases found with primary | ⟨-, unique | ⟨-, foreign | ⟨-, check⟩⟩⟩
  · split at primary
    next inside equal =>
      cases primary
      exact suffix_of_map_skipBlanks equal fun after =>
        suffix_of_keywords? (by decide) (by decide)
    next => cases primary
  · split at unique
    next inside equal =>
      cases unique
      exact suffix_of_map_skipBlanks equal fun after known =>
        (leaves_of_keyword? (by decide) known).suffix
    next => cases unique
  · split at foreign
    next inside equal =>
      cases foreign
      exact suffix_of_map_skipBlanks equal fun after =>
        suffix_of_keywords? (by decide) (by decide)
    next => cases foreign
  · split at check
    next inside equal =>
      cases check
      refine suffix_of_map_skipBlanks equal fun after known => ?_
      split at known
      · cases known
        exact List.drop_suffix 5 text
      · cases known
    next => cases check

/-- A constraint breaks only where a reference is introduced by a long s. -/
theorem hasLongReference_of_readConstraint? {entry : Text} {fault : Fault}
    (broken : readConstraint? entry = .error fault) :
    HasLongReference (trim entry) := by
  have named := readConstraintName_suffix (trim entry)
  rw [readConstraint?] at broken
  generalize readConstraintName (trim entry) = parts at broken named
  obtain ⟨name, text⟩ := parts
  dsimp only at broken named
  split at broken
  next => cases broken
  next terms tail found =>
    obtain ⟨⟨kind, list⟩, opens, found⟩ := Option.bind_eq_some_iff.mp found
    obtain ⟨⟨inside, behind⟩, closed, same⟩ :=
      Option.bind_eq_some_iff.mp found
    cases same
    obtain ⟨rest, first, second, third⟩ := leaves_of_parenthesised? closed
    have suffix := (((first.trans second).trans third).suffix.trans
      (readConstraintKind?_suffix opens)).trans named
    split at broken
    next =>
      cases read : readReferences? behind with
      | error fault =>
          exact ⟨behind, suffix, startsLongReference_of_readReferences? read⟩
      | ok reference =>
          rw [read] at broken
          cases reference <;> cases broken
    next => cases broken

/-! ## Entries -/

namespace Table.Contents

/-- Every entry is read as a column without a fault. -/
theorem exists_readColumn (table : Text) (contents : Contents)
    (entry : Text) : ∃ next, contents.readColumn table entry = .ok next := by
  obtain ⟨column, read⟩ := Column.exists_read? entry
  rw [readColumn, read]
  cases column with
  | none => exact ⟨_, rfl⟩
  | some column => exact ⟨_, rfl⟩

/-- An entry breaks only where a reference is introduced by a long s. -/
theorem hasLongReference_of_readEntry {table entry : Text}
    {contents : Contents} {fault : Fault}
    (broken : readEntry table contents entry = .error fault) :
    HasLongReference (trim entry) := by
  obtain ⟨next, column⟩ := exists_readColumn table contents entry
  rw [readEntry, column] at broken
  split at broken
  next =>
    cases read : readConstraint? entry with
    | error fault => exact hasLongReference_of_readConstraint? read
    | ok draft =>
        rw [read] at broken
        cases draft with
        | some draft => cases broken
        | none =>
            change (if isNamedConstraintEntry entry = true then
              (Except.ok _ : Except Fault Contents) else .ok next) =
                .error fault at broken
            split at broken <;> cases broken
  next => cases broken

/-- A column list breaks only where an entry does. -/
theorem exists_hasLongReference_of_read {table list : Text} {fault : Fault}
    (broken : read table list = .error fault) :
    ∃ entry ∈ splitCommas (stripComments list),
      HasLongReference (trim entry) := by
  obtain ⟨entry, member, contents, fails⟩ := exists_error_of_foldlM broken
  exact ⟨entry, member, hasLongReference_of_readEntry fails⟩

end Table.Contents

end Snowform
