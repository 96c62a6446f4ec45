import Snowform.Ddl.Clause
import Snowform.Ddl.Head
import Snowform.Lexical.Parentheses
import Mathlib.Data.List.Induction
import Mathlib.Data.List.TakeWhile

/-!
# What recognisers leave

A recogniser answers with the rest of the list that it was given.  The rest
starts where the list shows two different characters, or a character that no
fill shows: this is what `Leaves` says.  So a rest of a masked script never
starts inside a hidden character, whose bytes all show the same fill.

`Leaves` is reflexive and transitive, and holds of every recogniser.
-/

namespace Snowform

open Text Lexical

namespace Lexical

/-- The characters that hidden characters show. -/
def isFill (character : Char) : Bool :=
  character == ' ' || character == '_'

section Leaving

variable {α : Type} [Shown α]

/-- Whether a list may be cut here, whatever hidden characters it holds. -/
def Apart (before rest : List α) : Prop :=
  ∀ last ∈ before.getLast?, ∀ next ∈ rest.head?,
    shown last = shown next → isFill (shown next) = false

/-- A list can be cut in front of a rest that it ends with. -/
def Leaves (list rest : List α) : Prop :=
  ∃ before, list = before ++ rest ∧ Apart before rest

/-- A character that fills nothing keeps what follows it apart. -/
theorem Apart.of_last {last : α} (loud : isFill (shown last) = false)
    (before rest : List α) : Apart (before ++ [last]) rest := by
  intro other isLast next isNext same
  rw [List.getLast?_concat, Option.mem_some_iff] at isLast
  rw [← same, ← isLast]
  exact loud

/-- A character that fills nothing is kept apart from what it follows. -/
theorem Apart.of_next {next : α} (loud : isFill (shown next) = false)
    (before rest : List α) : Apart before (next :: rest) := by
  intro last isLast other isNext same
  rw [List.head?_cons, Option.mem_some_iff] at isNext
  rw [← isNext]
  exact loud

/-- Only the last element in front of a cut matters. -/
theorem Apart.of_append {before list rest : List α}
    (apart : Apart (before ++ list) rest) : Apart list rest := by
  intro last isLast
  apply apart last
  rw [List.getLast?_append, Option.mem_def.mp isLast]
  rfl

namespace Leaves

theorem refl (list : List α) : Leaves list list := by
  refine ⟨[], rfl, ?_⟩
  intro last isLast
  cases isLast

/-- The end of an end is an end of the whole. -/
theorem trans {list middle rest : List α} (first : Leaves list middle)
    (second : Leaves middle rest) : Leaves list rest := by
  obtain ⟨before, rfl, apart⟩ := first
  obtain ⟨further, rfl, apartToo⟩ := second
  refine ⟨before ++ further, (List.append_assoc ..).symm, ?_⟩
  cases further using List.reverseRecOn with
  | nil =>
      rw [List.append_nil]
      exact apart
  | append_singleton others last =>
      intro other isLast
      rw [← List.append_assoc, List.getLast?_concat,
        Option.mem_some_iff] at isLast
      apply apartToo other
      rw [List.getLast?_concat, isLast]
      rfl

theorem cons {element : α} (loud : isFill (shown element) = false)
    (rest : List α) : Leaves (element :: rest) rest :=
  ⟨[element], rfl, Apart.of_last loud [] rest⟩

/-- A list may be left at a character that fills nothing. -/
theorem next {element : α} (loud : isFill (shown element) = false)
    (before rest : List α) : Leaves (before ++ element :: rest)
      (element :: rest) :=
  ⟨before, rfl, Apart.of_next loud before rest⟩

end Leaves

/-- What follows a list does not matter to a cut inside it. -/
theorem Leaves.append {list rest : List α} (leaves : Leaves list rest)
    (nonempty : rest ≠ []) (behind : List α) :
    Leaves (list ++ behind) (rest ++ behind) := by
  obtain ⟨before, rfl, apart⟩ := leaves
  obtain ⟨next, others, rfl⟩ := List.exists_cons_of_ne_nil nonempty
  exact ⟨before, List.append_assoc .., apart⟩

/-- A cut may also stand at the end, where what follows is apart. -/
theorem Leaves.append_of_apart {list rest behind : List α}
    (leaves : Leaves list rest) (apart : Apart list behind) :
    Leaves (list ++ behind) (rest ++ behind) := by
  cases rest with
  | nil =>
      obtain ⟨before, rfl, -⟩ := leaves
      rw [List.append_nil] at apart
      exact ⟨before, by simp, apart⟩
  | cons next others => exact leaves.append (List.cons_ne_nil _ _) behind

theorem Leaves.suffix {list rest : List α} (leaves : Leaves list rest) :
    rest <:+ list := by
  obtain ⟨before, rfl, -⟩ := leaves
  exact List.suffix_append before rest

/-- Dropping what was read leaves the rest, with what follows the list. -/
theorem Leaves.drop_append {list rest : List α} (leaves : Leaves list rest)
    (behind : List α) :
    (list ++ behind).drop (list.length - rest.length) = rest ++ behind := by
  obtain ⟨before, rfl, -⟩ := leaves
  rw [List.length_append, Nat.add_sub_cancel, List.append_assoc,
    List.drop_left]

omit [Shown α] in
theorem upTo_append (before rest : List α) :
    upTo (before ++ rest) rest = before := by
  rw [upTo, List.length_append, Nat.add_sub_cancel, List.take_left]

omit [Shown α] in
/-- What follows a list does not matter to what was read of it. -/
theorem upTo_append_append {list rest : List α} (suffix : rest <:+ list)
    (behind : List α) :
    upTo (list ++ behind) (rest ++ behind) = upTo list rest := by
  obtain ⟨before, rfl⟩ := suffix
  rw [List.append_assoc, upTo_append, upTo_append]

/-- A part that a list can be cut around. -/
def CutsOut (list part : List α) : Prop :=
  ∃ rest, Leaves list (part ++ rest) ∧ Leaves (part ++ rest) rest

namespace CutsOut

/-- What was read between two rests can be cut out. -/
theorem of_leaves {list start rest : List α} (first : Leaves list start)
    (second : Leaves start rest) : CutsOut list (upTo start rest) := by
  obtain ⟨part, rfl, apart⟩ := second
  rw [upTo_append]
  exact ⟨rest, first, part, rfl, apart⟩

/-- What is cut out of an end is cut out of the whole. -/
theorem behind {list rest part : List α} (leaves : Leaves list rest)
    (cuts : CutsOut rest part) : CutsOut list part := by
  obtain ⟨others, first, second⟩ := cuts
  exact ⟨others, leaves.trans first, second⟩

/-- What is cut out of a list is cut out of a longer one, if that is apart. -/
theorem append {list part further : List α} (cuts : CutsOut list part)
    (apart : Apart list further) : CutsOut (list ++ further) part := by
  obtain ⟨others, first, second⟩ := cuts
  refine ⟨others ++ further, ?_, ?_⟩
  · rw [← List.append_assoc]
    exact first.append_of_apart apart
  · rw [← List.append_assoc]
    obtain ⟨before, rfl, -⟩ := first
    exact second.append_of_apart apart.of_append

/-- What can be cut out of a part can be cut out of the whole. -/
theorem trans {list middle part : List α} (first : CutsOut list middle)
    (second : CutsOut middle part) : CutsOut list part := by
  obtain ⟨rest, leaves, before, parts, apart⟩ := first
  rw [← List.append_cancel_right parts] at apart
  exact (second.append apart).behind leaves

end CutsOut

/-! ## Blanks -/

/-- A list can be cut behind a stretch that no test lets go on. -/
theorem apart_dropWhile (test : Char → Bool) (list : List α) :
    Apart (list.takeWhile (shows test)) (list.dropWhile (shows test)) := by
  intro last isLast next isNext same
  have passes : test (shown last) = true :=
    List.mem_takeWhile_imp (p := shows test)
      (List.mem_of_mem_getLast? isLast)
  have stops : (!test (shown next)) = true := by
    have known := List.head?_dropWhile_not (shows test) list
    rw [Option.mem_def.mp isNext] at known
    exact (Bool.not_eq_true' _).mpr known
  rw [← same, passes] at stops
  cases stops

/-- What is dropped by its look leaves an end. -/
theorem leaves_dropWhile (test : Char → Bool) (list : List α) :
    Leaves list (list.dropWhile (shows test)) :=
  ⟨list.takeWhile (shows test), List.takeWhile_append_dropWhile.symm,
    apart_dropWhile test list⟩

theorem skipBlanks_cons_visible {element : α}
    (visible : isBlank (shown element) = false) (rest : List α) :
    skipBlanks (element :: rest) = element :: rest :=
  List.dropWhile_cons_of_neg (Bool.eq_false_iff.mp visible)

theorem skipBlanks_cons_blank {element : α}
    (blank : isBlank (shown element) = true) (rest : List α) :
    skipBlanks (element :: rest) = skipBlanks rest :=
  List.dropWhile_cons_of_pos blank

/-- Skipping blanks leaves an end. -/
theorem leaves_skipBlanks (list : List α) : Leaves list (skipBlanks list) :=
  leaves_dropWhile isBlank list

/-- Reading blanks leaves an end. -/
theorem leaves_of_blanks? {list rest : List α} (found : blanks? list = some rest) :
    Leaves list rest := by
  rw [blanks?] at found
  split at found
  · cases found
    exact leaves_skipBlanks list
  · cases found

/-! ## Keywords -/

/-- A word that no fill can show a letter of. -/
def IsLoud (word : Text) : Prop :=
  ∀ letter ∈ word, isFill letter = false

instance (word : Text) : Decidable (IsLoud word) :=
  List.decidableBAll (fun letter => isFill letter = false) word

/-- A character without another case is met by itself only. -/
theorem eq_of_isKeywordLetter {letter character : Char}
    (unchanged : character.toUpper = character)
    (ascii : character.toNat < 128)
    (same : isKeywordLetter letter character = true) : letter = character := by
  have notLong : character ≠ 'ſ' := by
    rintro rfl
    exact absurd ascii (by decide)
  have notKelvin : character ≠ '\u212a' := by
    rintro rfl
    exact absurd ascii (by decide)
  simp only [isKeywordLetter, unchanged, notLong, notKelvin, beq_iff_eq,
    Bool.or_eq_true, Bool.and_eq_true, and_false, or_false] at same
  exact same.symm

/-- Whatever is read as a letter of a keyword fills nothing. -/
theorem isFill_of_isKeywordLetter {letter character : Char}
    (loud : isFill letter = false)
    (same : isKeywordLetter letter character = true) :
    isFill character = false := by
  rw [Bool.eq_false_iff]
  intro fill
  have cases : character = ' ' ∨ character = '_' := by
    simpa [isFill] using fill
  rcases cases with rfl | rfl
  · rw [eq_of_isKeywordLetter (by decide) (by decide) same] at loud
    cases loud
  · rw [eq_of_isKeywordLetter (by decide) (by decide) same] at loud
    cases loud

/-- Reading a keyword leaves an end. -/
theorem leaves_of_keyword? {word : Text} (loud : IsLoud word)
    {list rest : List α} (found : keyword? word list = some rest) :
    Leaves list rest := by
  induction word generalizing list with
  | nil =>
      cases found
      exact Leaves.refl _
  | cons letter letters ih =>
      rw [IsLoud, List.forall_mem_cons] at loud
      cases list with
      | nil => cases found
      | cons element others =>
          rw [keyword?] at found
          split at found
          next same =>
            have quiet := isFill_of_isKeywordLetter loud.1 same
            exact (Leaves.cons quiet others).trans (ih loud.2 found)
          next => cases found

theorem leaves_of_character? {expected : Char}
    (loud : isFill expected = false) {list rest : List α}
    (found : character? expected list = some rest) : Leaves list rest := by
  cases list with
  | nil => cases found
  | cons element others =>
      rw [character?] at found
      split at found
      next same =>
        cases found
        rw [← same] at loud
        exact Leaves.cons loud _
      next => cases found

theorem leaves_of_keyword_blanks? {word : Text} (loud : IsLoud word)
    {list rest : List α}
    (found : (keyword? word list >>= blanks?) = some rest) :
    Leaves list rest := by
  obtain ⟨after, known, blanks⟩ := Option.bind_eq_some_iff.mp found
  exact (leaves_of_keyword? loud known).trans (leaves_of_blanks? blanks)

/-- Reading a phrase leaves an end. -/
theorem leaves_of_phrase? {phrase : List Text}
    (loud : ∀ word ∈ phrase, IsLoud word) {list rest : List α}
    (found : phrase? phrase list = some rest) : Leaves list rest := by
  induction phrase generalizing list with
  | nil =>
      cases found
      exact Leaves.refl _
  | cons word others ih =>
      rw [List.forall_mem_cons] at loud
      rw [phrase?, Option.bind_eq_bind, Option.bind_eq_some_iff] at found
      obtain ⟨behind, found, later⟩ := found
      exact (leaves_of_keyword_blanks? loud.1 found).trans (ih loud.2 later)

/-- Reading a phrase that may be missing leaves an end. -/
theorem leaves_optionalPhrase {phrase : List Text}
    (loud : ∀ word ∈ phrase, IsLoud word) (list : List α) :
    Leaves list (optionalPhrase phrase list).2 := by
  rw [optionalPhrase]
  split
  next rest found => exact leaves_of_phrase? loud found
  next => exact Leaves.refl list

theorem keyword?_of_wholeWord? {word : Text} {behind list rest : List α}
    (found : wholeWord? word behind list = some rest) :
    keyword? word list = some rest := by
  rw [wholeWord?] at found
  split at found
  · split at found
    next after known =>
      split at found
      · cases found
      · cases found
        exact known
    next => cases found
  · cases found

/-- Reading a whole word leaves an end. -/
theorem leaves_of_wholeWord? {word : Text} (loud : IsLoud word)
    {behind list rest : List α}
    (found : wholeWord? word behind list = some rest) : Leaves list rest :=
  leaves_of_keyword? loud (keyword?_of_wholeWord? found)

/-! ## Parentheses -/

/-- What is closed stands in front of a closing parenthesis. -/
theorem exists_closing {quote : Option Char} {depth : Nat}
    {list inside tail : List α}
    (found : closing? quote depth list = some (inside, tail)) :
    ∃ last, list = inside ++ last :: tail ∧ shown last = ')' := by
  have step : ∀ {quote : Option Char} {depth : Nat} {element : α}
      {rest inside tail : List α},
      (∀ {inside tail : List α},
        closing? quote depth rest = some (inside, tail) →
          ∃ last, rest = inside ++ last :: tail ∧ shown last = ')') →
      (closing? quote depth rest).map (fun parts =>
        (element :: parts.1, parts.2)) = some (inside, tail) →
      ∃ last, element :: rest = inside ++ last :: tail ∧
        shown last = ')' := by
    intro quote depth element rest inside tail known found
    obtain ⟨⟨front, back⟩, later, same⟩ := Option.map_eq_some_iff.mp found
    cases same
    obtain ⟨last, rfl, closes⟩ := known later
    exact ⟨last, rfl, closes⟩
  fun_induction closing? quote depth list generalizing inside tail
  case case1 => cases found
  case case2 ih => exact step ih found
  case case3 ih => exact step ih found
  case case4 ih => exact step ih found
  case case5 ih => exact step ih found
  case case6 closes =>
    cases found
    exact ⟨_, rfl, closes⟩
  case case7 ih => exact step ih found
  case case8 ih => exact step ih found

/--
What is parenthesised stands between an opening and a closing parenthesis.
-/
theorem exists_parentheses {list inside tail : List α}
    (found : parenthesised? list = some (inside, tail)) :
    ∃ first last, list = first :: (inside ++ last :: tail) ∧
      shown first = '(' ∧ shown last = ')' := by
  rw [parenthesised?] at found
  cases list with
  | nil => cases found
  | cons first rest =>
      rw [character?] at found
      split at found
      next opens =>
        obtain ⟨last, rfl, closes⟩ := exists_closing found
        exact ⟨first, last, rfl, opens, closes⟩
      next => cases found

/-- A list can be cut around what stands between parentheses. -/
theorem leaves_of_parenthesised? {list inside tail : List α}
    (found : parenthesised? list = some (inside, tail)) :
    ∃ rest, Leaves list (inside ++ rest) ∧ Leaves (inside ++ rest) rest ∧
      Leaves rest tail := by
  obtain ⟨first, last, rfl, opens, closes⟩ := exists_parentheses found
  have loudFirst : isFill (shown first) = false := by
    rw [opens]
    decide
  have loudLast : isFill (shown last) = false := by
    rw [closes]
    decide
  exact ⟨last :: tail, Leaves.cons loudFirst _, Leaves.next loudLast inside _,
    Leaves.cons loudLast tail⟩

/-- The inside of parentheses is cut out. -/
theorem cutsOut_of_parenthesised? {list inside tail : List α}
    (found : parenthesised? list = some (inside, tail)) :
    CutsOut list inside := by
  obtain ⟨rest, opens, closes, -⟩ := leaves_of_parenthesised? found
  exact ⟨rest, opens, closes⟩

/-- What follows parentheses is an end. -/
theorem leaves_tail_of_parenthesised? {list inside tail : List α}
    (found : parenthesised? list = some (inside, tail)) :
    Leaves list tail := by
  obtain ⟨rest, opens, closes, leaves⟩ := leaves_of_parenthesised? found
  exact (opens.trans closes).trans leaves

/-! ## Searching -/

omit [Shown α] in
/-- An occurrence stands behind what was searched before it. -/
theorem exists_parts_of_findFirst {β : Type} {recognise : Recogniser α β}
    {behind list before after : List α} {found : β}
    (first : findFirst recognise behind list = some (before, found, after)) :
    ∃ searched element rest, before = searched.reverse ++ behind ∧
      list = searched ++ element :: rest ∧
      recognise before (element :: rest) = some (found, after) := by
  induction list generalizing behind with
  | nil => cases first
  | cons element rest ih =>
      rw [findFirst] at first
      split at first
      next parts here =>
        cases first
        exact ⟨[], element, rest, rfl, rfl, here⟩
      next =>
        obtain ⟨searched, other, others, rfl, rfl, here⟩ := ih first
        refine ⟨element :: searched, other, others, ?_, rfl, here⟩
        rw [List.reverse_cons, List.append_assoc, List.singleton_append]

/-- A recogniser of occurrences that start with a character no fill shows. -/
def StartsLoud {β : Type} (recognise : Recogniser α β) : Prop :=
  ∀ behind element rest parts,
    recognise behind (element :: rest) = some parts →
      isFill (shown element) = false

/-- A search leaves the list from the first occurrence on. -/
theorem leaves_of_findFirst {β : Type} {recognise : Recogniser α β}
    (loud : StartsLoud recognise) {list before after : List α} {found : β}
    (first : findFirst recognise [] list = some (before, found, after)) :
    ∃ here, Leaves list here ∧ here = list.drop before.length ∧
      recognise before here = some (found, after) := by
  obtain ⟨searched, element, rest, rfl, rfl, here⟩ :=
    exists_parts_of_findFirst first
  refine ⟨element :: rest, Leaves.next (loud _ _ _ _ here) searched rest, ?_,
    here⟩
  simp

/-- A keyword starts with a character that fills nothing. -/
theorem startsLoud_of_keyword? {word : Text} (loud : IsLoud word)
    (nonempty : word ≠ []) {element : α} {rest after : List α}
    (found : keyword? word (element :: rest) = some after) :
    isFill (shown element) = false := by
  cases word with
  | nil => exact absurd rfl nonempty
  | cons letter letters =>
      rw [keyword?] at found
      split at found
      next same =>
        exact isFill_of_isKeywordLetter (loud letter List.mem_cons_self) same
      next => cases found

theorem startsLoud_of_wholeWord? {word : Text} (loud : IsLoud word)
    (nonempty : word ≠ []) {behind rest after : List α} {element : α}
    (found : wholeWord? word behind (element :: rest) = some after) :
    isFill (shown element) = false :=
  startsLoud_of_keyword? loud nonempty (keyword?_of_wholeWord? found)

end Leaving

end Lexical

/-! ## Heads of statements -/

section Heads

variable {α : Type} [Shown α]

/-- Reading the words in front of a kind leaves an end. -/
theorem leaves_of_beforeKind? {object : ObjectKind} {flags : HeadFlags}
    {list rest : List α} (found : beforeKind? object list = some (flags, rest)) :
    Leaves list rest := by
  rw [beforeKind?, Option.bind_eq_bind, Option.bind_eq_some_iff] at found
  obtain ⟨start, created, found⟩ := found
  have leaves := (leaves_skipBlanks list).trans
    (leaves_of_phrase? (by decide) created)
  have replaced : Leaves list (optionalPhrase ["OR", "REPLACE"] start).2 :=
    leaves.trans (leaves_optionalPhrase (by decide) start)
  cases object with
  | view =>
      cases found
      exact replaced.trans (leaves_optionalPhrase (by decide) _)
  | table =>
      cases found
      exact replaced
  | procedure =>
      cases found
      exact replaced

/-- Reading a head leaves an end. -/
theorem leaves_of_readHead? {object : ObjectKind} {flags : HeadFlags}
    {list rest : List α} (found : readHead? object list = some (flags, rest)) :
    Leaves list rest := by
  have loud : ∀ word ∈ [object.keyword], IsLoud word := by
    cases object <;> decide
  rw [readHead?, Option.bind_eq_bind, Option.bind_eq_some_iff] at found
  obtain ⟨⟨named, start⟩, before, found⟩ := found
  rw [Option.bind_eq_bind, Option.bind_eq_some_iff] at found
  obtain ⟨behind, kind, found⟩ := found
  cases found
  exact ((leaves_of_beforeKind? before).trans
    (leaves_of_phrase? loud kind)).trans
      (leaves_optionalPhrase (by decide) behind)

end Heads

end Snowform
