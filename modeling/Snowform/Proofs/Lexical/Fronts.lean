import Snowform.Ddl.Head
import Snowform.Proofs.Lexical.Quoting
import Snowform.Proofs.Lexical.Leaving
import Snowform.Proofs.Lexical.Spacing

/-!
# What stands in front of a word

A list that ends in a blank is read alike whatever word follows it.  A reader
either is done before it comes to the end, or it meets the word from its first
letter on, where it looks for something else.  The word starts with an A,
which no keyword in front of the name of an object does.  A mark that no
keyword has stops a reader wherever it stands.

Scripts are put together in the same way.  One that is closed and ends in a
blank is cut into regions as if nothing followed.
-/

namespace Snowform

open Text Lexical

namespace Lexical

section Fronts

variable {α : Type} [Shown α]

/-- A list that is empty or ends in a blank. -/
def EndsInBlank (list : List α) : Prop :=
  ∀ last ∈ list.getLast?, isBlank (shown last) = true

instance (list : List α) : Decidable (EndsInBlank list) :=
  inferInstanceAs
    (Decidable (∀ last ∈ list.getLast?, isBlank (shown last) = true))

theorem EndsInBlank.of_suffix {list rest : List α} (ends : EndsInBlank list)
    (suffix : rest <:+ list) : EndsInBlank rest := by
  obtain ⟨front, rfl⟩ := suffix
  exact fun last isLast =>
    ends last (List.mem_getLast?_append_of_mem_getLast? isLast)

/-- Lists that end in blanks do so one behind the other. -/
theorem EndsInBlank.append {first second : List α} (ends : EndsInBlank first)
    (endsSecond : EndsInBlank second) : EndsInBlank (first ++ second) := by
  intro last isLast
  rw [List.getLast?_append, Option.mem_def, Option.or_eq_some_iff] at isLast
  rcases isLast with inSecond | ⟨-, inFirst⟩
  · exact endsSecond last inSecond
  · exact ends last inFirst

/-- What is no blank is not the end. -/
theorem EndsInBlank.ne_nil_of_cons {element : α} {rest : List α}
    (ends : EndsInBlank (element :: rest))
    (visible : isBlank (shown element) = false) : rest ≠ [] := by
  rintro rfl
  have blank := ends element rfl
  rw [visible] at blank
  cases blank

theorem EndsInBlank.exists_isBlank {list : List α} (ends : EndsInBlank list)
    (nonempty : list ≠ []) :
    ∃ element ∈ list, isBlank (shown element) = true :=
  ⟨list.getLast nonempty, List.getLast_mem nonempty,
    ends _ (List.getLast?_eq_some_getLast nonempty)⟩

/-- Whatever stops in a list stops in front of what follows. -/
theorem while_append (test : Char → Bool) {list : List α}
    (stops : ∃ element ∈ list, test (shown element) = false)
    (behind : List α) :
    (list ++ behind).takeWhile (shows test) = list.takeWhile (shows test) ∧
      (list ++ behind).dropWhile (shows test) =
        list.dropWhile (shows test) ++ behind := by
  obtain ⟨element, member, stop⟩ := stops
  have left : list.dropWhile (shows test) ≠ [] := by
    rw [ne_eq, List.dropWhile_eq_nil_iff]
    intro all
    have goesOn : test (shown element) = true := all element member
    rw [stop] at goesOn
    cases goesOn
  have size : (list.takeWhile (shows test)).length ≠ list.length := by
    have parts := congrArg List.length
      (List.takeWhile_append_dropWhile (p := shows test) (l := list))
    have some := List.length_pos_iff.mpr left
    rw [List.length_append] at parts
    omega
  rw [List.takeWhile_append, List.dropWhile_append, if_neg size,
    if_neg (by simpa using left)]
  exact ⟨rfl, rfl⟩

/-- What goes on in a list and stops behind it takes all of the list. -/
theorem while_stopped (test : Char → Bool) {list behind : List α}
    (goesOn : ∀ element ∈ list, test (shown element) = true)
    (stops : startsWith test behind = false) :
    (list ++ behind).takeWhile (shows test) = list ∧
      (list ++ behind).dropWhile (shows test) = behind := by
  have all : ∀ element ∈ list, shows test element = true := goesOn
  rw [List.takeWhile_append_of_pos all, List.dropWhile_append_of_pos all]
  cases behind with
  | nil => exact ⟨List.append_nil _, rfl⟩
  | cons element others =>
      have stop : ¬ shows test element = true := Bool.eq_false_iff.mp stops
      rw [List.takeWhile_cons_of_neg stop, List.dropWhile_cons_of_neg stop,
        List.append_nil]
      exact ⟨rfl, rfl⟩

/-! ## Keywords -/

/-- A word in capitals. -/
def IsCapital (word : Text) : Prop :=
  ∀ letter ∈ word, letter.isUpper = true

instance (word : Text) : Decidable (IsCapital word) :=
  List.decidableBAll _ word

theorem IsCapital.isLoud {word : Text} (capital : IsCapital word) :
    IsLoud word := by
  intro letter member
  rw [Bool.eq_false_iff]
  intro fill
  have upper := capital letter member
  rcases (by simpa [isFill] using fill : letter = ' ' ∨ letter = '_') with
    rfl | rfl <;> cases upper

/-- What is read as a letter of a keyword is no blank. -/
theorem isBlank_of_isKeywordLetter {letter character : Char}
    (capital : letter.isUpper = true)
    (same : isKeywordLetter letter character = true) :
    isBlank character = false := by
  rw [Bool.eq_false_iff]
  intro blank
  rw [isKeywordLetter_of_isBlank capital blank] at same
  cases same

/-- A keyword is not all of a list that ends in a blank. -/
theorem EndsInBlank.ne_nil_of_keyword? {word : Text}
    (capital : IsCapital word) {list rest : List α} (ends : EndsInBlank list)
    (nonempty : list ≠ []) (found : keyword? word list = some rest) :
    rest ≠ [] := by
  induction word generalizing list with
  | nil =>
      cases found
      exact nonempty
  | cons letter letters ih =>
      rw [IsCapital, List.forall_mem_cons] at capital
      cases list with
      | nil => cases found
      | cons element others =>
          rw [keyword?] at found
          split at found
          next same =>
            exact ih capital.2 (ends.of_suffix (List.suffix_cons _ _))
              (ends.ne_nil_of_cons (isBlank_of_isKeywordLetter capital.1 same))
              found
          next => cases found

/-- A keyword does not reach from a list that ends in a blank further. -/
theorem keyword?_append_behind {word : Text} (capital : IsCapital word)
    {list : List α} (ends : EndsInBlank list) {behind : List α}
    (absent : list ≠ [] ∨ keyword? word behind = none) :
    keyword? word (list ++ behind) =
      (keyword? word list).map (· ++ behind) := by
  induction word generalizing list with
  | nil => rfl
  | cons letter letters ih =>
      rw [IsCapital, List.forall_mem_cons] at capital
      cases list with
      | nil => exact absent.resolve_left fun nonempty => nonempty rfl
      | cons element others =>
          rw [List.cons_append, keyword?, keyword?]
          split
          next same =>
            exact ih capital.2 (ends.of_suffix (List.suffix_cons _ _))
              (.inl (ends.ne_nil_of_cons
                (isBlank_of_isKeywordLetter capital.1 same)))
          next => rfl

theorem startsWith_append {test : Char → Bool} {list : List α}
    (nonempty : list ≠ []) (behind : List α) :
    startsWith test (list ++ behind) = startsWith test list := by
  rw [startsWith, startsWith, List.head?_append_of_ne_nil _ nonempty]

/-- A whole word in front of a blank is not changed by what follows. -/
theorem wholeWord?_append {word : Text} (capital : IsCapital word)
    {before list : List α} (ends : EndsInBlank list) (nonempty : list ≠ [])
    (behind : List α) :
    wholeWord? word before (list ++ behind) =
      (wholeWord? word before list).map (· ++ behind) := by
  rw [wholeWord?, wholeWord?, isBoundary, isBoundary,
    startsWith_append nonempty,
    keyword?_append_behind capital ends (.inl nonempty)]
  split
  next =>
    cases found : keyword? word list with
    | none => rfl
    | some rest =>
        have more := ends.ne_nil_of_keyword? capital nonempty found
        dsimp only [Option.map_some]
        rw [startsWith_append more]
        split <;> rfl
  next => rfl

/-! ## In front of a mark or of a word that starts with an A -/

/-- A word in capitals that does not start with an A. -/
def IsHeadWord (word : Text) : Prop :=
  IsCapital word ∧ word.head?.any (fun letter => letter != 'A') = true

instance (word : Text) : Decidable (IsHeadWord word) :=
  inferInstanceAs (Decidable (_ ∧ _))

/-- No word of a head is read where an A stands. -/
theorem keyword?_of_isHeadWord {first : α} (starts : shown first = 'A')
    (others : List α) {word : Text} (headWord : IsHeadWord word) :
    keyword? word (first :: others) = none := by
  obtain ⟨capital, apart⟩ := headWord
  cases word with
  | nil => cases apart
  | cons letter letters =>
      have different : letter ≠ 'A' := by simpa using apart
      rw [keyword?, starts, if_neg]
      exact fun same =>
        different (eq_of_isKeywordLetter (by decide) (by decide) same)

/-- A character that no keyword has. -/
def IsUnspelled (character : Char) : Prop :=
  ∀ letter : Char, letter.isUpper = true →
    isKeywordLetter letter character = false

/-- A mark is its own capital, but no capital letter. -/
theorem isUnspelled_of_toUpper {character : Char}
    (unchanged : character.toUpper = character)
    (ascii : character.toNat < 128) (noCapital : character.isUpper = false) :
    IsUnspelled character := by
  intro letter capital
  rw [Bool.eq_false_iff]
  intro same
  rw [eq_of_isKeywordLetter unchanged ascii same, noCapital] at capital
  cases capital

/--
An element that no reader of a head takes for part of the list in front of it:
a mark that no keyword has, or an A behind a blank.
-/
inductive StandsBehind (list : List α) (first : α) : Prop where
  | mark (visible : isBlank (shown first) = false)
      (unspelled : IsUnspelled (shown first)) : StandsBehind list first
  | word (starts : shown first = 'A') (ends : EndsInBlank list) :
      StandsBehind list first

section

variable {list : List α} {first : α} (stands : StandsBehind list first)

include stands

theorem StandsBehind.of_suffix {rest : List α} (suffix : rest <:+ list) :
    StandsBehind rest first := by
  cases stands with
  | mark visible unspelled => exact .mark visible unspelled
  | word starts ends => exact .word starts (ends.of_suffix suffix)

theorem StandsBehind.visible : isBlank (shown first) = false := by
  cases stands with
  | mark visible unspelled => exact visible
  | word starts ends =>
      rw [starts]
      decide

/-- A keyword of a head is read in front of what follows the head. -/
theorem StandsBehind.keyword?_append {word : Text} (headWord : IsHeadWord word)
    (others : List α) :
    keyword? word (list ++ first :: others) =
      (keyword? word list).map (· ++ first :: others) := by
  cases stands with
  | mark visible unspelled =>
      have capital := headWord.1
      clear headWord
      induction word generalizing list with
      | nil => rfl
      | cons letter letters ih =>
          rw [IsCapital, List.forall_mem_cons] at capital
          cases list with
          | nil => exact if_neg (Bool.eq_false_iff.mp (unspelled _ capital.1))
          | cons element rest =>
              rw [List.cons_append, keyword?, keyword?]
              split
              next => exact ih capital.2
              next => rfl
  | word starts ends =>
      exact keyword?_append_behind headWord.1 ends
        (.inr (keyword?_of_isHeadWord starts others headWord))

end

section

variable {first : α} (visible : isBlank (shown first) = false)
  (others : List α)

include visible

theorem startsWith_isBlank_append (list : List α) :
    startsWith isBlank (list ++ first :: others) = startsWith isBlank list := by
  cases list with
  | nil => exact visible
  | cons element rest => rfl

theorem skipBlanks_append (list : List α) :
    skipBlanks (list ++ first :: others) =
      skipBlanks list ++ first :: others := by
  have stops : ¬ shows isBlank first = true := Bool.eq_false_iff.mp visible
  rw [skipBlanks, List.dropWhile_append, List.dropWhile_cons_of_neg stops]
  split
  next empty =>
    rw [skipBlanks, List.isEmpty_iff.mp empty, List.nil_append]
  next => rfl

theorem blanks?_append (list : List α) :
    blanks? (list ++ first :: others) =
      (blanks? list).map (· ++ first :: others) := by
  rw [blanks?, blanks?, startsWith_isBlank_append visible others,
    skipBlanks_append visible others]
  split <;> rfl

end

section

variable {phrase : List Text} (headWords : ∀ word ∈ phrase, IsHeadWord word)
  {list : List α} {first : α} (stands : StandsBehind list first)
  (others : List α)

include headWords stands

/-- A phrase of a head is read in front of what follows the head. -/
theorem phrase?_append :
    phrase? phrase (list ++ first :: others) =
      (phrase? phrase list).map (· ++ first :: others) := by
  induction phrase generalizing list with
  | nil => rfl
  | cons word words ih =>
      rw [List.forall_mem_cons] at headWords
      have capital := headWords.1.1
      rw [phrase?, phrase?, stands.keyword?_append headWords.1]
      cases found : keyword? word list with
      | none => rfl
      | some rest =>
          have suffix := (leaves_of_keyword? capital.isLoud found).suffix
          simp only [Option.map_some, Option.bind_eq_bind, Option.bind_some,
            blanks?_append stands.visible others]
          cases blanks : blanks? rest with
          | none => rfl
          | some start =>
              exact ih headWords.2 ((stands.of_suffix suffix).of_suffix
                (leaves_of_blanks? blanks).suffix)

theorem optionalPhrase_append :
    optionalPhrase phrase (list ++ first :: others) =
      (optionalPhrase phrase list).map id (· ++ first :: others) := by
  rw [optionalPhrase, optionalPhrase, phrase?_append headWords stands]
  cases phrase? phrase list <;> rfl

end

/-! ## Parentheses -/

/-- What closes a parenthesis closes it whatever follows. -/
theorem closing?_append_of_some {quote : Option Char} {depth : Nat}
    {list inside tail : List α}
    (found : closing? quote depth list = some (inside, tail))
    (behind : List α) :
    closing? quote depth (list ++ behind) = some (inside, tail ++ behind) := by
  induction list generalizing quote depth inside tail with
  | nil => cases found
  | cons element rest ih =>
      have keeps : ∀ {quote depth},
          (closing? quote depth rest).map (fun parts =>
            (element :: parts.1, parts.2)) = some (inside, tail) →
          (closing? quote depth (rest ++ behind)).map (fun parts =>
            (element :: parts.1, parts.2)) = some (inside, tail ++ behind) := by
        intro quote depth known
        obtain ⟨⟨front, back⟩, later, same⟩ := Option.map_eq_some_iff.mp known
        cases same
        rw [ih later]
        rfl
      rw [List.cons_append]
      rw [closing?.eq_def] at found ⊢
      cases quote with
      | some mark =>
          dsimp only at found ⊢
          split at found
          next same => rw [if_pos same]; exact keeps found
          next other => rw [if_neg other]; exact keeps found
      | none =>
          dsimp only at found ⊢
          split at found
          next quoted => rw [if_pos quoted]; exact keeps found
          next plain =>
            rw [if_neg plain]
            split at found
            next opens => rw [if_pos opens]; exact keeps found
            next unopened =>
              rw [if_neg unopened]
              split at found
              next closes =>
                rw [if_pos closes]
                cases depth with
                | zero =>
                    cases found
                    rfl
                | succ outer => exact keeps found
              next other => rw [if_neg other]; exact keeps found

/-- Closed parentheses do not change with what follows them. -/
theorem parenthesised?_append_of_some {list inside tail : List α}
    (found : parenthesised? list = some (inside, tail)) (behind : List α) :
    parenthesised? (list ++ behind) = some (inside, tail ++ behind) := by
  cases list with
  | nil => cases found
  | cons element rest =>
      rw [parenthesised?, character?] at found
      rw [List.cons_append, parenthesised?, character?]
      split at found
      next opens =>
        rw [if_pos opens]
        exact closing?_append_of_some found behind
      next => cases found

section

variable {behind : List α} (unclosed : ∀ element ∈ behind, shown element ≠ ')')

include unclosed

/-- Nothing closes where no closing parenthesis stands. -/
theorem closing?_of_unclosed (quote : Option Char) (depth : Nat) :
    closing? quote depth behind = none := by
  rw [Option.eq_none_iff_forall_ne_some]
  rintro ⟨inside, tail⟩ found
  obtain ⟨last, rfl, closes⟩ := exists_closing found
  exact unclosed last (by simp) closes

/--
A text without a closing parenthesis changes nothing of what closes in front of
it.
-/
theorem closing?_append (quote : Option Char) (depth : Nat) (list : List α) :
    closing? quote depth (list ++ behind) =
      (closing? quote depth list).map (Prod.map id (· ++ behind)) := by
  induction list generalizing quote depth with
  | nil => exact closing?_of_unclosed unclosed quote depth
  | cons element rest ih =>
      have keeps : ∀ quote depth,
          (closing? quote depth (rest ++ behind)).map (fun parts =>
            (element :: parts.1, parts.2)) =
              ((closing? quote depth rest).map fun parts =>
                (element :: parts.1, parts.2)).map
                  (Prod.map id (· ++ behind)) := by
        intro quote depth
        rw [ih, Option.map_map, Option.map_map]
        rfl
      rw [List.cons_append, closing?.eq_def, closing?.eq_def quote depth]
      cases quote with
      | some mark =>
          dsimp only
          split <;> exact keeps _ _
      | none =>
          dsimp only
          split
          next => exact keeps _ _
          next =>
            split
            next => exact keeps _ _
            next =>
              split
              next =>
                cases depth with
                | zero => rfl
                | succ outer => exact keeps _ _
              next => exact keeps _ _

/-- Text that opens no parenthesis changes no closed ones in front of it. -/
theorem parenthesised?_append
    (unopened : startsWith (· == '(') behind = false) (list : List α) :
    parenthesised? (list ++ behind) =
      (parenthesised? list).map (Prod.map id (· ++ behind)) := by
  cases list with
  | nil =>
      cases behind with
      | nil => rfl
      | cons first others =>
          have other : shown first ≠ '(' := by
            simpa [startsWith, shows] using unopened
          rw [List.nil_append, parenthesised?, character?, if_neg other]
          rfl
  | cons element rest =>
      rw [List.cons_append, parenthesised?, parenthesised?, character?,
        character?]
      split
      next => exact closing?_append unclosed none 0 rest
      next => rfl

end

end Fronts

/-! ## Scripts -/

/-- A neutral character stays in a region, but for the feed of a comment. -/
theorem remainder_cons_of_neutral {mode : Mode} (opens : mode.Opens)
    {mark : Char} (neutral : isNeutral mark = true)
    (inside : mode = .lineComment → mark ≠ '\n') (rest : Text) :
    mode.remainder (mark :: rest) = mark :: mode.remainder rest := by
  have other : ∀ loud : Char, isNeutral loud = false → mark ≠ loud := by
    rintro loud isLoud rfl
    rw [neutral] at isLoud
    cases isLoud
  have searched : ∀ first others, isNeutral first = false →
      upThrough (first :: others) (mark :: rest) =
        mark :: upThrough (first :: others) rest := by
    intro first others loud
    rw [upThrough, if_neg]
    rw [List.isPrefixOf_iff_prefix, List.cons_prefix_cons]
    exact fun same => other first loud same.1.symm
  cases mode with
  | code => exact opens.elim
  | singleQuote => exact quotedRest_of_ne (other _ (by decide)) rest
  | doubleQuote => exact quotedRest_of_ne (other _ (by decide)) rest
  | lineComment =>
      simp [Mode.remainder, inside rfl]
  | blockComment => exact searched '*' ['/'] (by decide)
  | dollarQuote tag => exact searched '$' (tag ++ ['$']) (by decide)

/-- A neutral character behind an open region belongs to the region. -/
theorem LeftOpen.concat {text kept : Text} {done : List Region} {mode : Mode}
    (leftOpen : LeftOpen false text done mode kept) {mark : Char}
    (neutral : isNeutral mark = true)
    (inside : mode = .lineComment → mark ≠ '\n') :
    LeftOpen false (text ++ [mark]) done mode (kept ++ [mark]) := by
  have followed : ∀ rest, ∃ others,
      lexemesFrom 0 false (text ++ mark :: rest) =
        done ++ ⟨mode.kind, kept ++ mark :: mode.remainder rest⟩ :: others := by
    intro rest
    rw [← remainder_cons_of_neutral leftOpen.opens neutral inside]
    exact leftOpen.followed _ (StartsNeutral.of_cons neutral rest)
  refine {
    opens := leftOpen.opens
    kept_ne_nil := List.append_ne_nil_of_left_ne_nil leftOpen.kept_ne_nil _
    alone := ?_
    followed := ?_ }
  · obtain ⟨others, parts⟩ := followed []
    rw [Mode.remainder_nil] at parts
    have nonempty : ∀ region ∈ others, region.text ≠ [] := by
      intro region member
      refine (isLexeme_of_mem_lexemesFrom false (text ++ [mark]) region ?_).1
      rw [parts]
      exact List.mem_append_right _ (List.mem_cons_of_mem _ member)
    have same := textOf_lexemesFrom false (text ++ [mark])
    rw [parts, List.append_cons, textOf_append, textOf_append, textOf_cons,
      textOf_nil, List.append_nil, ← List.append_assoc, leftOpen.textOf_done,
      List.append_right_eq_self] at same
    rw [parts, eq_nil_of_textOf_eq_nil nonempty same]
  · intro rest _
    rw [List.append_assoc, List.append_assoc]
    exact followed rest

/-- A neutral character is code by itself. -/
theorem lexemesFrom_neutral {mark : Char} (neutral : isNeutral mark = true)
    (afterName : Bool) (rest : Text) :
    lexemesFrom 0 afterName (mark :: rest) =
      ⟨.code, [mark]⟩ :: lexemes rest := by
  rw [lexemesFrom_code (special?_of_isNeutral neutral _ _),
    continuesName_of_isNeutral neutral, lexemes]

/-- A blank at the end of a closed script is one of code. -/
theorem IsClosed.exists_lexemes {text : Text} {blank : Char}
    (isBlank : isBlank blank = true) (closed : IsClosed (text ++ [blank])) :
    ∃ front, ∀ rest, lexemes (text ++ blank :: rest) =
      front ++ ⟨.code, [blank]⟩ :: lexemes rest := by
  have neutral := isNeutral_of_isBlank isBlank
  have starts := StartsNeutral.of_cons neutral
  rcases settled_or_leftOpen false text with
    settled | ⟨done, mode, kept, leftOpen⟩
  · refine ⟨lexemes text, fun rest => ?_⟩
    rw [lexemes, settled _ (starts rest), lexemesFrom_neutral neutral]
    rfl
  · -- Only a line comment can end here, at the feed behind it.
    by_cases feed : mode = .lineComment ∧ blank = '\n'
    · obtain ⟨rfl, rfl⟩ := feed
      refine ⟨done ++ [⟨.lineComment, kept⟩], fun rest => ?_⟩
      obtain ⟨others, followed⟩ := leftOpen.followed _ (starts rest)
      have nothing : Mode.remainder .lineComment ('\n' :: rest) = [] := rfl
      rw [nothing, List.append_nil, List.append_cons done] at followed
      have behind := lexemesFrom_of_eq_append followed
      have same := textOf_lexemesFrom false (text ++ '\n' :: rest)
      rw [followed, textOf_append, textOf_append, textOf_cons, textOf_nil,
        List.append_nil, leftOpen.textOf_done, List.append_right_inj] at same
      rw [same, lexemesFrom_neutral neutral] at behind
      rw [lexemes, followed, ← behind]
      rfl
    · have still := leftOpen.concat neutral fun line same => feed ⟨line, same⟩
      have kind := still.kindAt?_semicolon.symm.trans closed
      exact absurd (Option.some.inj kind) still.opens.kind_ne_code

/-- What follows a closed script behind a blank is masked alone. -/
theorem IsClosed.cells_append {script : Text} (closed : IsClosed script)
    (ends : EndsInBlank script) :
    EndsInBlank (cells script) ∧
      ∀ rest, cells (script ++ rest) = cells script ++ cells rest := by
  rcases List.eq_nil_or_concat script with rfl | ⟨text, blank, rfl⟩
  · exact ⟨nofun, fun _ => rfl⟩
  · rw [List.concat_eq_append] at closed ends ⊢
    have isBlank : isBlank blank = true := ends blank (by simp)
    obtain ⟨front, parts⟩ := closed.exists_lexemes isBlank
    have alone : cells (text ++ [blank]) =
        front.flatMap Region.cells ++ [.plain blank] := by
      rw [cells, parts, List.flatMap_append]
      rfl
    refine ⟨?_, fun rest => ?_⟩
    · intro last isLast
      rw [alone, List.getLast?_concat, Option.mem_some_iff] at isLast
      exact isLast ▸ isBlank
    · rw [alone, List.append_assoc, List.singleton_append, cells, parts,
        List.flatMap_append, List.append_assoc]
      rfl

end Lexical

/-! ## Heads of statements -/

section Heads

variable {α : Type} [Shown α] {list : List α} {first : α}
  (stands : StandsBehind list first) (others : List α)

include stands

/-- The words in front of a kind are read in front of what follows the head. -/
theorem beforeKind?_append (object : ObjectKind) :
    beforeKind? object (list ++ first :: others) =
      (beforeKind? object list).map (Prod.map id (· ++ first :: others)) := by
  have begins := stands.of_suffix (leaves_skipBlanks list).suffix
  rw [beforeKind?, beforeKind?, skipBlanks_append stands.visible others,
    phrase?_append (by decide) begins]
  cases created : phrase? ["CREATE"] (skipBlanks list) with
  | none => rfl
  | some start =>
      have standsStart := begins.of_suffix
        (leaves_of_phrase? (by decide) created).suffix
      have words : ∀ word ∈ (["OR", "REPLACE"] : List Text), IsHeadWord word := by
        decide
      have replaced := optionalPhrase_append words standsStart others
      simp only [Option.map_some, Option.bind_eq_bind, Option.bind_some,
        replaced]
      cases object with
      | view =>
          have secureWord : ∀ word ∈ (["SECURE"] : List Text),
              IsHeadWord word := by
            decide
          have standsRest := standsStart.of_suffix
            (leaves_optionalPhrase (fun word member =>
              (words word member).1.isLoud) start).suffix
          have secure := optionalPhrase_append secureWord standsRest others
          simp only [Prod.map_fst, Prod.map_snd, secure]
          rfl
      | table => rfl
      | procedure => rfl

/-- A head is read in front of what follows it. -/
theorem readHead?_append (object : ObjectKind) :
    readHead? object (list ++ first :: others) =
      (readHead? object list).map (Prod.map id (· ++ first :: others)) := by
  have headWords : ∀ word ∈ [object.keyword], IsHeadWord word := by
    cases object <;> decide
  rw [readHead?, readHead?, beforeKind?_append stands others]
  cases before : beforeKind? object list with
  | none => rfl
  | some found =>
      obtain ⟨flags, rest⟩ := found
      have standsRest := stands.of_suffix (leaves_of_beforeKind? before).suffix
      simp only [Option.map_some, Option.bind_eq_bind, Option.bind_some,
        Prod.map, id, phrase?_append headWords standsRest]
      cases named : phrase? [object.keyword] rest with
      | none => rfl
      | some start =>
          have standsStart := standsRest.of_suffix
            (leaves_of_phrase? (fun word member =>
              (headWords word member).1.isLoud) named).suffix
          have words : ∀ word ∈ (["IF", "NOT", "EXISTS"] : List Text),
              IsHeadWord word := by
            decide
          have optional := optionalPhrase_append words standsStart others
          simp only [Option.map_some, Option.bind_some, optional]
          rfl

omit stands in
/-- A head is read alike whatever follows, if a mark stands behind it. -/
theorem readHead?_append_of_some {object : ObjectKind} {flags : HeadFlags}
    {start : List α} (found : readHead? object list = some (flags, start))
    (ends : [first] <:+ start) (visible : isBlank (shown first) = false)
    (unspelled : IsUnspelled (shown first)) (behind : List α) :
    readHead? object (list ++ behind) = some (flags, start ++ behind) := by
  obtain ⟨front, rfl⟩ := ends
  obtain ⟨before, rfl⟩ := (leaves_of_readHead? found).suffix
  have stands : StandsBehind (before ++ front) first :=
    .mark visible unspelled
  have alone := readHead?_append stands [] object
  have followed := readHead?_append stands behind object
  rw [List.append_assoc, found] at alone
  obtain ⟨⟨others, shorter⟩, head, same⟩ :=
    Option.map_eq_some_iff.mp alone.symm
  have sameFlags : others = flags := congrArg Prod.fst same
  have sameFront : shorter = front :=
    List.append_cancel_right (congrArg Prod.snd same)
  rw [head, sameFlags, sameFront] at followed
  simp only [List.append_assoc, List.singleton_append] at followed ⊢
  exact followed

end Heads

end Snowform
