import Snowform.Proofs.Ddl.References
import Snowform.Proofs.Ddl.SpacedColumns
import Snowform.Proofs.Text.Folding

/-!
# Constraints with gaps

An entry that is a constraint is read in pieces: the name, the kind, the list
in parentheses, the reference and the flags.  Every piece starts and ends at
the same marks whatever the width of the gaps.  Only what is listed and what
is referenced can hold gaps itself.
-/

namespace Snowform

open Text Lexical

/-! ## Tests -/

theorem isEven_isWord : IsEven isWord := by
  have unlike : ∀ character, isBlank character = true →
      isWord character = false := by
    intro character blank
    rw [Bool.eq_false_iff]
    intro word
    rw [not_isBlank_of_isWord word] at blank
    cases blank
  intro character blank
  rw [unlike character blank, unlike ' ' (by decide)]

theorem isEven_endsBareName : IsEven endsBareName := by
  intro character blank
  rw [endsBareName, blank]
  rfl

/-- A character that is not a blank is told apart from every blank. -/
theorem isEven_beq {expected : Char} (visible : isBlank expected = false) :
    IsEven (· == expected) := by
  have other : ∀ character, isBlank character = true →
      (character == expected) = false := by
    intro character blank
    apply beq_false_of_ne
    rintro rfl
    rw [visible] at blank
    cases blank
  intro character blank
  exact (other character blank).trans (other ' ' (by decide)).symm

/-! ## Words -/

/-- Two keywords with blanks between them. -/
theorem keywords?_rendered (width : Width) {first second : Text}
    (capitals : (first ++ second).all Char.isUpper = true)
    (marks : List Mark) :
    (keyword? first (rendered width marks) >>= blanks? >>= keyword? second) =
      (keyword? first marks >>= blanks? >>= keyword? second).map
        (rendered width) := by
  rw [List.all_append, Bool.and_eq_true] at capitals
  rw [keyword?_rendered width capitals.1,
    bind_map_eq_map_bind (blanks?_rendered width)]
  exact bind_map_eq_map_bind (keyword?_rendered width capitals.2)

theorem sameIgnoringCase_cons (first second : Char) (text other : Text) :
    sameIgnoringCase (first :: text) (second :: other) =
      (first.toUpper == second.toUpper && sameIgnoringCase text other) := by
  simp [sameIgnoringCase, asciiUpper]

/-- The start of marks is a word in any case, or is not, at every width. -/
theorem exists_word (word : Text)
    (visible : (asciiUpper word).any isBlank = false) (marks : List Mark) :
    ∃ answer : Option (List Mark), (∀ rest ∈ answer, rest <:+ marks) ∧
      ∀ width, (if sameIgnoringCase ((rendered width marks).take word.length) word
        then some ((rendered width marks).drop word.length) else none) =
          answer.map (rendered width) := by
  induction word generalizing marks with
  | nil => exact ⟨some marks, by simp, fun _ => rfl⟩
  | cons letter letters ih =>
      have split : isBlank letter.toUpper = false ∧
          (asciiUpper letters).any isBlank = false := by
        simpa [asciiUpper] using visible
      cases marks with
      | nil => exact ⟨none, by simp, fun _ => rfl⟩
      | cons mark rest =>
          cases mark with
          | gap narrow wide =>
              refine ⟨none, by simp, ?_⟩
              intro width
              obtain ⟨first, others, blank, renders⟩ :=
                exists_rendered_gap_cons width narrow wide
              have other : (first.toUpper == letter.toUpper) = false := by
                apply beq_false_of_ne
                intro equal
                rw [← equal, toUpper_of_isBlank blank, blank] at split
                cases split.1
              rw [renders, List.length_cons, List.take_succ_cons,
                sameIgnoringCase_cons, other]
              rfl
          | letter character =>
              obtain ⟨answer, suffix, known⟩ := ih split.2 rest
              by_cases same : character.toUpper = letter.toUpper
              · refine ⟨answer, fun behind member =>
                  (suffix behind member).trans (List.suffix_cons _ _), ?_⟩
                intro width
                rw [← known width, rendered_letter, List.length_cons,
                  List.take_succ_cons, List.drop_succ_cons,
                  sameIgnoringCase_cons, beq_iff_eq.mpr same, Bool.true_and]
              · refine ⟨none, by simp, ?_⟩
                intro width
                rw [rendered_letter, List.length_cons, List.take_succ_cons,
                  sameIgnoringCase_cons, beq_false_of_ne same]
                rfl

/-! ## Kinds of entries -/

/-- Whether an entry is a constraint does not depend on the spacing. -/
theorem isConstraintEntry_rendered (width other : Width) (marks : List Mark) :
    isConstraintEntry (rendered width marks) =
      isConstraintEntry (rendered other marks) := by
  have ends : ∀ (width : Width) (rest : Option (List Mark)),
      (rest.map (rendered width)).any (fun after => !startsWith isWord after) =
        rest.any fun after => !startsWith isWord after := by
    intro width rest
    cases rest with
    | none => rfl
    | some after =>
        change (!startsWith isWord (rendered width after)) = _
        rw [startsWith_rendered isEven_isWord]
        rfl
  have known : ∀ width, isConstraintEntry (rendered width marks) =
      ((keyword? "CONSTRAINT" (skipBlanks marks)).any
          (fun after => !startsWith isWord after) ||
        (keyword? "PRIMARY" (skipBlanks marks) >>= blanks? >>=
          keyword? "KEY").any (fun after => !startsWith isWord after) ||
        (keyword? "FOREIGN" (skipBlanks marks) >>= blanks? >>=
          keyword? "KEY").any (fun after => !startsWith isWord after) ||
        (keyword? "UNIQUE" (skipBlanks marks)).any
          (fun after => !startsWith isWord after) ||
        (keyword? "CHECK" (skipBlanks marks)).any
          fun after => !startsWith isWord after) := by
    intro width
    rw [isConstraintEntry, skipBlanks_rendered,
      keyword?_rendered width (by decide), keywords?_rendered width (by decide),
      keywords?_rendered width (by decide), keyword?_rendered width (by decide),
      keyword?_rendered width (by decide)]
    simp only [ends]
  rw [known, known]

/-- A named entry has its keyword and a blank behind it. -/
theorem isNamedConstraintEntry_eq (entry : Text) :
    isNamedConstraintEntry entry =
      (if sameIgnoringCase
          ((skipBlanks entry).take ("CONSTRAINT" : Text).length) "CONSTRAINT"
        then some ((skipBlanks entry).drop ("CONSTRAINT" : Text).length)
        else none).any (startsWith isBlank) := by
  change (sameIgnoringCase ((skipBlanks entry).take 10) "CONSTRAINT" && _) =
    Option.any _ (if sameIgnoringCase ((skipBlanks entry).take 10) "CONSTRAINT"
      then some ((skipBlanks entry).drop 10) else none)
  cases sameIgnoringCase ((skipBlanks entry).take 10) "CONSTRAINT" <;> rfl

/-- Whether an entry names a constraint does not depend on the spacing. -/
theorem isNamedConstraintEntry_rendered (width other : Width)
    (marks : List Mark) :
    isNamedConstraintEntry (rendered width marks) =
      isNamedConstraintEntry (rendered other marks) := by
  obtain ⟨answer, -, known⟩ := exists_word "CONSTRAINT"
    (by decide) (skipBlanks marks)
  have same : ∀ width, isNamedConstraintEntry (rendered width marks) =
      answer.any (startsWith isBlank) := by
    intro width
    rw [isNamedConstraintEntry_eq, skipBlanks_rendered, known]
    cases answer with
    | none => rfl
    | some rest => exact startsWith_rendered isEven_isBlank width rest
  rw [same, same]

/-! ## Names of constraints -/

theorem afterQuotedName?_of_ne {character : Char} (other : character ≠ '"')
    (begun : Bool) (rest : Text) :
    afterQuotedName? begun (character :: rest) = afterQuotedName? true rest := by
  cases rest with
  | nil => simp [afterQuotedName?, other]
  | cons next others => rw [afterQuotedName?, if_neg other]

/-- A doubled quote belongs to the name, unless nothing else closes it. -/
theorem afterQuotedName?_quotes (begun : Bool) (rest : Text) :
    afterQuotedName? begun ('"' :: '"' :: rest) =
      (afterQuotedName? true rest).or
        (if begun then some ('"' :: rest) else none) := by
  rw [afterQuotedName?, if_pos rfl, if_pos rfl]
  cases afterQuotedName? true rest <;> rfl

theorem afterQuotedName?_quote {rest : Text} (single : rest.head? ≠ some '"')
    (begun : Bool) :
    afterQuotedName? begun ('"' :: rest) =
      if begun then some rest else none := by
  cases rest with
  | nil => simp [afterQuotedName?]
  | cons next others =>
      have other : next ≠ '"' := by simpa using single
      simp [afterQuotedName?, other]

/-- A quoted name that is closed inside of a text does not go on. -/
theorem afterQuotedName?_append_of_closed {depth : Int} {begun : Bool}
    {text rest : Text}
    (closed : (text.foldl Nesting.advance ⟨some '"', depth⟩).quote = none)
    (single : rest.head? ≠ some '"') :
    afterQuotedName? begun (text ++ rest) =
      (afterQuotedName? begun text).map (· ++ rest) := by
  induction text using quotedInduction '"' generalizing begun with
  | nil => cases closed
  | other character others differs ih =>
      rw [List.foldl_cons, Nesting.advance_quoted differs] at closed
      rw [List.cons_append, afterQuotedName?_of_ne differs,
        afterQuotedName?_of_ne differs, ih closed]
  | doubled others ih =>
      rw [List.cons_append, List.cons_append, afterQuotedName?_quotes,
        afterQuotedName?_quotes, ih closed]
      cases afterQuotedName? true others with
      | some after => rfl
      | none => cases begun <;> rfl
  | closed others alone =>
      have stillSingle : (others ++ rest).head? ≠ some '"' := by
        cases others with
        | nil => exact single
        | cons next behind => exact alone
      rw [List.cons_append, afterQuotedName?_quote stillSingle,
        afterQuotedName?_quote alone]
      cases begun <;> rfl

/-- What follows a constraint name that is not quoted. -/
def afterBareName? (text : Text) : Option Text :=
  let after := text.dropWhile fun character => !endsBareName character
  if after.length = text.length then none else some after

theorem afterConstraintName?_of_head_ne {text : Text}
    (bare : text.head? ≠ some '"') :
    afterConstraintName? text = afterBareName? text := by
  rw [afterConstraintName?]
  · rfl
  · rintro rest rfl
    exact bare rfl

/-- A name behind a quote is read as quoted and, failing that, as bare. -/
theorem afterConstraintName?_quote (rest : Text) :
    afterConstraintName? ('"' :: rest) =
      (afterQuotedName? false rest).or (afterBareName? ('"' :: rest)) := by
  rw [afterConstraintName?]
  rfl

/-- A reader that finds the same letters in front of the same marks. -/
def FindsLetters (read : Text → Option Text) (marks : List Mark) : Prop :=
  (∀ width, read (rendered width marks) = none) ∨
    ∃ (name : Text) (rest : List Mark), marks = name.map .letter ++ rest ∧
      ∀ width, read (rendered width marks) = some (rendered width rest)

/-- A reader that reads alike finds the same letters. -/
theorem FindsLetters.of_eq {read other : Text → Option Text}
    {marks : List Mark} (finds : FindsLetters read marks)
    (same : ∀ width, other (rendered width marks) =
      read (rendered width marks)) : FindsLetters other marks := by
  rcases finds with none | ⟨name, rest, parts, found⟩
  · exact Or.inl fun width => (same width).trans (none width)
  · exact Or.inr ⟨name, rest, parts,
      fun width => (same width).trans (found width)⟩

/-- A bare name has the same letters in either spacing. -/
theorem findsLetters_afterBareName? (marks : List Mark) :
    FindsLetters afterBareName? marks := by
  have even := isEven_not isEven_endsBareName
  obtain ⟨name, letters⟩ := exists_takeWhile
    (fun character => !endsBareName character) (by decide) marks
  have parts := List.takeWhile_append_dropWhile
    (p := shows fun character => !endsBareName character) (l := marks)
  rw [letters] at parts
  generalize rest : marks.dropWhile
    (shows fun character => !endsBareName character) = behind at parts
  have known : ∀ width, afterBareName? (rendered width marks) =
      if name = [] then none else some (rendered width behind) := by
    intro width
    have size : (rendered width marks).length =
        name.length + (rendered width behind).length := by
      rw [← parts, rendered_append, rendered_letters, List.length_append]
    rw [afterBareName?, dropWhile_rendered even, rest]
    by_cases empty : name = []
    · rw [if_pos empty, if_pos (by rw [size, empty]; simp)]
    · have positive := List.length_pos_iff.mpr empty
      rw [if_neg empty, if_neg (by omega)]
  by_cases empty : name = []
  · exact Or.inl fun width => by rw [known, if_pos empty]
  · exact Or.inr ⟨name, behind, parts.symm, fun width => by
      rw [known, if_neg empty]⟩

/-- The name of a constraint has the same letters in either spacing. -/
theorem Steady.findsLetters_afterConstraintName? {marks : List Mark}
    (steady : Steady {} marks) :
    FindsLetters afterConstraintName? marks := by
  have bare := findsLetters_afterBareName? marks
  by_cases quote : marks.head? = some (.letter '"')
  · obtain ⟨others, rfl⟩ := List.head?_eq_some_iff.mp quote
    have inside : Steady ⟨some '"', 0⟩ others := steady
    obtain ⟨text, rest, rfl, starts, closed⟩ := inside.exists_letters
    have quoted : ∀ width,
        afterQuotedName? false (rendered width (text.map .letter ++ rest)) =
          (afterQuotedName? false text).map (· ++ rendered width rest) := by
      intro width
      rw [rendered_append, rendered_letters]
      rcases closed with rfl | closed
      · simp
      · refine afterQuotedName?_append_of_closed closed ?_
        intro first
        cases starts.isBlank_head width '"' first
    have known : ∀ width, afterConstraintName?
        (rendered width (.letter '"' :: (text.map .letter ++ rest))) =
          ((afterQuotedName? false text).map (· ++ rendered width rest)).or
            (afterBareName?
              (rendered width (.letter '"' :: (text.map .letter ++ rest)))) := by
      intro width
      rw [rendered_letter, afterConstraintName?_quote, quoted]
    cases found : afterQuotedName? false text with
    | none =>
        rw [found] at known
        exact bare.of_eq known
    | some after =>
        rw [found] at known
        obtain ⟨name, parts⟩ := afterQuotedName?_suffix found
        refine Or.inr ⟨'"' :: name, after.map .letter ++ rest, ?_, ?_⟩
        · rw [← parts, List.map_append, List.append_assoc]
          rfl
        · intro width
          rw [known, rendered_append, rendered_letters]
          rfl
  · have same : ∀ width, afterConstraintName? (rendered width marks) =
        afterBareName? (rendered width marks) := by
      intro width
      exact afterConstraintName?_of_head_ne
        (head?_rendered_ne width (by decide) quote)
    exact bare.of_eq same

/-- A keyword is made of letters, which open and close nothing. -/
theorem Steady.behind_keyword {nesting : Nesting}
    (outside : nesting.quote = none) {word : Text}
    (capitals : word.all Char.isUpper = true) {marks rest : List Mark}
    (steady : Steady nesting marks)
    (found : keyword? word marks = some rest) : Steady nesting rest := by
  induction word generalizing marks with
  | nil =>
      cases found
      exact steady
  | cons letter letters ih =>
      rw [List.all_cons, Bool.and_eq_true] at capitals
      cases marks with
      | nil => cases found
      | cons mark others =>
          rw [keyword?] at found
          split at found
          next same =>
            refine ih capitals.2 ?_ found
            cases mark with
            | gap narrow wide => exact steady.2
            | letter character =>
                have plain : character ∉ ['\'', '"', '(', ')'] := by
                  intro member
                  simp only [List.mem_cons, List.not_mem_nil, or_false] at member
                  rcases member with rfl | rfl | rfl | rfl <;>
                    · rw [eq_of_isKeywordLetter (by decide) (by decide)
                        same] at capitals
                      cases capitals.1
                rw [Steady, Nesting.advance_of_plain outside plain] at steady
                exact steady
          next => cases found

/-- What follows a keyword is the end of the marks. -/
theorem suffix_of_keyword? {word : Text} {marks rest : List Mark}
    (found : keyword? word marks = some rest) : rest <:+ marks := by
  obtain ⟨spelling, rfl, -⟩ := exists_spelling found
  exact List.suffix_append spelling rest

theorem suffix_of_blanks? {marks rest : List Mark}
    (found : blanks? marks = some rest) : rest <:+ marks := by
  rw [blanks?] at found
  split at found
  · cases found
    exact List.dropWhile_suffix _
  · cases found

theorem skipBlanks_suffix (marks : List Mark) : skipBlanks marks <:+ marks :=
  List.dropWhile_suffix _

/-- No gap is part of the name of a constraint. -/
theorem Steady.exists_readConstraintName {marks : List Mark}
    (steady : Steady {} marks) :
    ∃ (name : Option Text) (rest : List Mark), rest <:+ marks ∧
      ∀ width, readConstraintName (rendered width marks) =
        (name, rendered width rest) := by
  have capitals : ("CONSTRAINT" : Text).all Char.isUpper = true := by decide
  have found : ∀ width,
      (keyword? "CONSTRAINT" (rendered width marks) >>= blanks?) =
        (keyword? "CONSTRAINT" marks >>= blanks?).map (rendered width) := by
    intro width
    rw [keyword?_rendered width capitals]
    exact bind_map_eq_map_bind (blanks?_rendered width)
  cases named : keyword? "CONSTRAINT" marks >>= blanks? with
  | none =>
      refine ⟨none, marks, List.suffix_rfl, ?_⟩
      intro width
      rw [readConstraintName, found, named]
      rfl
  | some start =>
      obtain ⟨behind, word, blanks⟩ := Option.bind_eq_some_iff.mp named
      have startSteady : Steady {} start := by
        rw [blanks?] at blanks
        split at blanks
        · cases blanks
          exact (steady.behind_keyword rfl capitals word).skipBlanks rfl
        · cases blanks
      rcases startSteady.findsLetters_afterConstraintName? with
        nothing | ⟨name, rest, rfl, finds⟩
      · refine ⟨none, marks, List.suffix_rfl, ?_⟩
        intro width
        rw [readConstraintName, found, named]
        dsimp only [Option.map_some]
        rw [nothing]
      · refine ⟨some (unquote name), Lexical.skipBlanks rest, ?_, ?_⟩
        · exact (skipBlanks_suffix rest).trans
            ((List.suffix_append _ rest).trans
              ((suffix_of_blanks? blanks).trans (suffix_of_keyword? word)))
        · intro width
          rw [readConstraintName, found, named]
          dsimp only [Option.map_some]
          rw [finds]
          dsimp only
          rw [skipBlanks_rendered, rendered_append, rendered_letters,
            upTo_append]

/-! ## Kinds of constraints -/

/-- A kind of constraint in front of the parenthesis that it needs. -/
def openList {α : Type} [Shown α] (kind : ConstraintKind)
    (rest : Option (List α)) : Option (ConstraintKind × List α) :=
  rest.bind fun after =>
    if startsWith (· == '(') (skipBlanks after) then
      some (kind, skipBlanks after)
    else
      none

/-- A parenthesis behind the keywords opens the list of the constraint. -/
theorem openList_of_some (kind : ConstraintKind) {rest : Option Text}
    {inside : Text} (opens : rest.map skipBlanks = some ('(' :: inside)) :
    openList kind rest = some (kind, '(' :: inside) := by
  obtain ⟨after, rfl, same⟩ := Option.map_eq_some_iff.mp opens
  rw [openList, Option.bind_some, same]
  rfl

theorem openList_of_none (kind : ConstraintKind) {rest : Option Text}
    (closed : ∀ inside, rest.map skipBlanks = some ('(' :: inside) → False) :
    openList kind rest = none := by
  cases rest with
  | none => rfl
  | some after =>
      rw [openList, Option.bind_some]
      apply if_neg
      intro opens
      cases parts : skipBlanks after with
      | nil =>
          rw [parts] at opens
          cases opens
      | cons first others =>
          rw [parts] at opens
          have same : first = '(' := beq_iff_eq.mp opens
          refine closed others ?_
          rw [Option.map_some, parts, same]

/-- The word that introduces a check, in ASCII letters. -/
def checkWord? (text : Text) : Option Text :=
  if sameIgnoringCase (text.take ("CHECK" : Text).length) "CHECK" then
    some (text.drop ("CHECK" : Text).length)
  else
    none

/-- The kinds of constraints are tried one after the other. -/
theorem readConstraintKind?_eq (text : Text) :
    readConstraintKind? text =
      (openList .primaryKey
        (keyword? "PRIMARY" text >>= blanks? >>= keyword? "KEY")).or
      ((openList .unique (keyword? "UNIQUE" text)).or
        ((openList .foreignKey
          (keyword? "FOREIGN" text >>= blanks? >>= keyword? "KEY")).or
        (openList .check (checkWord? text)))) := by
  rw [readConstraintKind?]
  dsimp only
  refine congrArg₂ Option.or ?_
    (congrArg₂ Option.or ?_ (congrArg₂ Option.or ?_ ?_))
  all_goals
    split
    next same => exact (openList_of_some _ same).symm
    next absent => exact (openList_of_none _ absent).symm

/-- The list of a constraint opens at the same mark in either spacing. -/
theorem openList_rendered (width : Width) (kind : ConstraintKind)
    (rest : Option (List Mark)) :
    openList kind (rest.map (rendered width)) =
      (openList kind rest).map (Prod.map id (rendered width)) := by
  cases rest with
  | none => rfl
  | some after =>
      rw [Option.map_some, openList, openList, Option.bind_some,
        Option.bind_some, skipBlanks_rendered,
        startsWith_rendered (isEven_beq (by decide))]
      split <;> rfl

theorem suffix_of_openList {kind kindToo : ConstraintKind}
    {rest : Option (List Mark)} {list marks : List Mark}
    (suffix : ∀ after ∈ rest, after <:+ marks)
    (opens : openList kind rest = some (kindToo, list)) : list <:+ marks := by
  obtain ⟨after, known, opens⟩ := Option.bind_eq_some_iff.mp opens
  split at opens
  · cases opens
    exact (skipBlanks_suffix after).trans (suffix after known)
  · cases opens

/-- The kind of a constraint and its list start at the same marks. -/
theorem exists_readConstraintKind? (marks : List Mark) :
    ∃ answer : Option (ConstraintKind × List Mark),
      (∀ kind list, answer = some (kind, list) → list <:+ marks) ∧
      ∀ width, readConstraintKind? (rendered width marks) =
        answer.map (Prod.map id (rendered width)) := by
  obtain ⟨check, checkSuffix, checked⟩ := exists_word "CHECK"
    (by decide) marks
  have twoWords : ∀ {first second : Text},
      ∀ after ∈ keyword? first marks >>= blanks? >>= keyword? second,
        after <:+ marks := by
    intro first second after member
    obtain ⟨middle, both, last⟩ := Option.bind_eq_some_iff.mp member
    obtain ⟨behind, word, blanks⟩ := Option.bind_eq_some_iff.mp both
    exact (suffix_of_keyword? last).trans
      ((suffix_of_blanks? blanks).trans (suffix_of_keyword? word))
  refine ⟨(openList .primaryKey
      (keyword? "PRIMARY" marks >>= blanks? >>= keyword? "KEY")).or
    ((openList .unique (keyword? "UNIQUE" marks)).or
      ((openList .foreignKey
        (keyword? "FOREIGN" marks >>= blanks? >>= keyword? "KEY")).or
      (openList .check check))), ?_, ?_⟩
  · intro kind list found
    simp only [Option.or_eq_some_iff] at found
    rcases found with primary | ⟨-, unique | ⟨-, foreign | ⟨-, check⟩⟩⟩
    · exact suffix_of_openList twoWords primary
    · exact suffix_of_openList (fun _ => suffix_of_keyword?) unique
    · exact suffix_of_openList twoWords foreign
    · exact suffix_of_openList checkSuffix check
  · intro width
    have checkKnown : checkWord? (rendered width marks) =
        check.map (rendered width) := checked width
    rw [readConstraintKind?_eq, keywords?_rendered width (by decide),
      keywords?_rendered width (by decide), keyword?_rendered width (by decide),
      checkKnown]
    simp only [openList_rendered, Option.map_or]

end Snowform
