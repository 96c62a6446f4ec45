import Snowform.Proofs.Ddl.Clauses
import Snowform.Proofs.Lexical.Cutting
import Snowform.Proofs.Lexical.Tags
import Snowform.Proofs.Text.Folding

/-!
# The word that introduces a query

The word `AS` is looked for in a masked script.  As masking shows the tags of
dollar literals, it is found where the first word `AS` of code is, or in a
dollar literal whose tag is the word.

A script whose characters are painted with the kinds of their regions shows
its code and nothing else, so that searching it finds words of code only.
-/

namespace Snowform

open Text Lexical

/-- A painted character shows itself if it is code, and else a blank. -/
instance : Shown (Char × RegionKind) :=
  ⟨fun painted => if painted.2 = .code then painted.1 else ' '⟩

/-- A dollar literal whose tag is a word. -/
def Region.IsTaggedBy (word : Text) (region : Region) : Prop :=
  ∃ tag : Text, region.kind = .dollarQuote ∧ keyword? word tag = some [] ∧
    (Mode.dollarQuote tag).opening <+: region.text

theorem keyedBy_asKeyword? {α : Type} [Shown α] :
    KeyedBy "AS" (asKeyword? : Recogniser α Unit) := by
  intro behind ahead none
  rw [asKeyword?, none]
  rfl

theorem suffix_of_findFirst_asKeyword? {α : Type} [Shown α]
    {behind list before rest : List α}
    (found : findFirst asKeyword? behind list = some (before, (), rest)) :
    rest <:+ list := by
  obtain ⟨searched, element, others, -, rfl, here⟩ :=
    exists_parts_of_findFirst found
  obtain ⟨spelling, parts, -⟩ := leaves_of_asKeyword? here
  rw [parts, ← List.append_assoc]
  exact List.suffix_append _ _

/-! ## Literals -/

section

variable {mode : Mode} (opens : mode.Opens)
  (literal : mode.kind.isLiteral = true)

include opens literal

/-- A delimiter lacks the word, or it is a marker with the word as its tag. -/
theorem lacks_opening :
    (∀ behind rest, Lacks "AS" rest behind (mode.opening.map Cell.plain)) ∨
      ∃ tag, mode = .dollarQuote tag ∧ keyword? "AS" tag = some [] := by
  have capital : IsCapital "AS" := by decide
  cases mode with
  | singleQuote =>
      exact .inl fun behind rest => lacks_of_quiet rfl (by decide) behind
  | doubleQuote =>
      exact .inl fun behind rest => lacks_of_quiet rfl (by decide) behind
  | dollarQuote tag =>
      by_cases same : keyword? "AS" tag = some []
      · exact .inr ⟨tag, rfl, same⟩
      · exact .inl (lacks_marker capital rfl opens same)
  | _ => cases literal

omit literal in
theorem findFirst_of_tag {tag : Text} (isMarker : mode = .dollarQuote tag)
    (same : keyword? "AS" tag = some []) (behind rest : List Cell) :
    ∃ before, findFirst asKeyword? behind
      (mode.opening.map .plain ++ rest) =
        some (before, (), .plain '$' :: rest) := by
  subst isMarker
  have capital : IsCapital "AS" := by decide
  have parts : (Mode.dollarQuote tag).opening.map Cell.plain ++ rest =
      [.plain '$'] ++ (tag.map .plain ++ .plain '$' :: rest) := by
    simp [Mode.opening]
  have found : asKeyword? (.plain '$' :: behind)
      (tag.map Cell.plain ++ .plain '$' :: rest) =
        some ((), .plain '$' :: rest) := by
    rw [asKeyword?, wholeWord?_of_tag capital rfl opens same rfl]
    rfl
  rw [parts,
    keyedBy_asKeyword?.findFirst_append (lacks_dollar capital rfl behind _)]
  exact ⟨_, findFirst_of_some (by simp) found⟩

/-- From a blank on, a literal hides characters up to its closing delimiter. -/
theorem exists_ending {hidden closing : Text} {part ending : List Cell}
    (closes : ∀ character ∈ closing, character ∈ mode.opening)
    (cut : mode.opening.map .plain ++
      (hidden.flatMap (veil '_') ++ closing.map .plain) = part ++ ending)
    (starts : startsWith isBlank ending = true) :
    ∃ hiddenEnd, hiddenEnd <:+ hidden.flatMap (veil '_') ∧
      ending = hiddenEnd ++ closing.map .plain := by
  have visible : ∀ {text rest : List Cell},
      (∀ cell ∈ text, ∃ character ∈ mode.opening, cell = .plain character) →
        text ≠ [] → ending ≠ text ++ rest := by
    rintro text rest delimits nonempty rfl
    obtain ⟨first, others, rfl⟩ := List.exists_cons_of_ne_nil nonempty
    obtain ⟨character, member, rfl⟩ := delimits first List.mem_cons_self
    have loud := isNeutral_of_mem_opening opens literal member
    exact absurd (loud.symm.trans (isNeutral_of_isBlank starts)) (by decide)
  have ofOpening : ∀ cell ∈ mode.opening.map Cell.plain,
      ∃ character ∈ mode.opening, cell = .plain character := by
    intro cell member
    obtain ⟨character, known, rfl⟩ := List.mem_map.mp member
    exact ⟨character, known, rfl⟩
  rcases List.append_eq_append_iff.mp cut with
    ⟨behind, -, later⟩ | ⟨between, front, same⟩
  · rcases List.append_eq_append_iff.mp later with
      ⟨inClosing, -, closed⟩ | ⟨hiddenEnd, whole, same⟩
    · by_cases nothing : ending = []
      · rw [nothing] at starts
        cases starts
      · refine absurd (List.append_nil ending).symm (visible ?_ nothing)
        intro cell member
        have known := List.mem_append_right inClosing member
        rw [← closed] at known
        obtain ⟨character, inside, rfl⟩ := List.mem_map.mp known
        exact ⟨character, closes character inside, rfl⟩
    · exact ⟨hiddenEnd, ⟨behind, whole.symm⟩, same⟩
  · by_cases nothing : between = []
    · rw [nothing, List.nil_append] at same
      exact ⟨_, List.suffix_rfl, same⟩
    · refine absurd same (visible (fun cell member => ?_) nothing)
      apply ofOpening
      rw [front]
      exact List.mem_append_right _ member

end

theorem quiet_of_hidden {text : Text} {hidden : List Cell}
    (suffix : hidden <:+ text.flatMap (veil '_')) :
    ∀ cell ∈ hidden, isKeywordLetter 'A' (shown cell) = false :=
  fun cell member => forall_shown_of_veil (isKeywordLetter 'A' · = false)
    (by decide) (by decide) cell (suffix.subset member)

/--
What a region shows, from its start or from a blank on, lacks the word, or the
region is a literal with the word as its tag.
-/
def Region.LacksOrTagged (region : Region) (ending : List Cell) : Prop :=
  (∀ behind rest, Lacks "AS" rest behind ending) ∨
    region.IsTaggedBy "AS" ∧ ∀ behind rest, ∃ before front shown,
      front ≠ [] ∧ region.cells = front ++ .plain '$' :: shown ∧
      findFirst asKeyword? behind (ending ++ rest) =
        some (before, (), .plain '$' :: (shown ++ rest))

section

variable {mode : Mode} (opens : mode.Opens)
  (literal : mode.kind.isLiteral = true) {inside hidden closing : Text}
  (closes : closing = mode.opening ∨ closing = [])
  (shown : (⟨mode.kind, mode.opening ++ mode.remainder inside⟩ :
    Region).cells = mode.opening.map .plain ++
      (hidden.flatMap (veil '_') ++ closing.map .plain))

include opens literal closes shown

/-- The end of a literal, with all or some of what it hides. -/
theorem lacksOrTagged_ending {hiddenEnd : List Cell}
    (suffix : hiddenEnd <:+ hidden.flatMap (veil '_')) :
    Region.LacksOrTagged ⟨mode.kind, mode.opening ++ mode.remainder inside⟩
      (hiddenEnd ++ closing.map .plain) := by
  have quiet := quiet_of_hidden suffix
  have lacksHidden : ∀ behind rest, Lacks "AS" rest behind hiddenEnd :=
    fun behind rest => lacks_of_quiet rfl quiet behind
  rcases closes with rfl | rfl
  · rcases lacks_opening opens literal with lacks | ⟨tag, rfl, same⟩
    · exact .inl fun behind rest =>
        (lacksHidden behind _).append (lacks _ rest)
    · refine .inr ⟨⟨tag, rfl, same, List.prefix_append _ _⟩,
        fun behind rest => ?_⟩
      obtain ⟨before, found⟩ := findFirst_of_tag opens rfl same
        (hiddenEnd.reverse ++ behind) rest
      refine ⟨before, (Mode.dollarQuote tag).opening.map .plain ++
        (hidden.flatMap (veil '_') ++ ('$' :: tag).map .plain), [], ?_, ?_, ?_⟩
      · exact List.append_ne_nil_of_left_ne_nil (List.cons_ne_nil _ _) _
      · rw [shown, List.append_assoc, List.append_assoc]
        simp [Mode.opening]
      · rw [List.append_assoc,
          keyedBy_asKeyword?.findFirst_append (lacksHidden behind _)]
        exact found
  · refine .inl fun behind rest => ?_
    rw [List.map_nil, List.append_nil]
    exact lacksHidden behind rest

/-- All of a literal. -/
theorem lacksOrTagged_literal :
    Region.LacksOrTagged ⟨mode.kind, mode.opening ++ mode.remainder inside⟩
      (mode.opening.map .plain ++
        (hidden.flatMap (veil '_') ++ closing.map .plain)) := by
  rcases lacks_opening opens literal with lacks | ⟨tag, rfl, same⟩
  · have lacksClosing : ∀ behind rest,
        Lacks "AS" rest behind (closing.map Cell.plain) := by
      intro behind rest
      rcases closes with rfl | rfl
      · exact lacks behind rest
      · trivial
    exact .inl fun behind rest => (lacks behind _).append
      ((lacks_of_quiet rfl (quiet_of_hidden List.suffix_rfl) _).append
        (lacksClosing _ rest))
  · refine .inr ⟨⟨tag, rfl, same, List.prefix_append _ _⟩,
      fun behind rest => ?_⟩
    obtain ⟨before, found⟩ := findFirst_of_tag opens rfl same behind
      (hidden.flatMap (veil '_') ++ closing.map Cell.plain ++ rest)
    refine ⟨before, ('$' :: tag).map .plain,
      hidden.flatMap (veil '_') ++ closing.map .plain, List.cons_ne_nil _ _,
      ?_, ?_⟩
    · rw [shown]
      simp [Mode.opening]
    · rw [List.append_assoc]
      exact found

end

theorem lacksOrTagged {mode : Mode} (opens : mode.Opens) {inside : Text}
    {part ending : List Cell}
    (cut : (⟨mode.kind, mode.opening ++ mode.remainder inside⟩ :
      Region).cells = part ++ ending)
    (starts : part = [] ∨ startsWith isBlank ending = true) :
    Region.LacksOrTagged ⟨mode.kind, mode.opening ++ mode.remainder inside⟩
      ending := by
  rcases RegionKind.isLiteral_or_isComment opens.kind_ne_code with
    literal | comment
  · obtain ⟨hidden, closing, -, closes, shown⟩ :=
      exists_cells_literal opens literal inside
    have closes := closes.imp_right And.left
    rcases starts with rfl | starts
    · rw [List.nil_append] at cut
      rw [← cut, shown]
      exact lacksOrTagged_literal opens literal closes shown
    · have inOpening : ∀ character ∈ closing, character ∈ mode.opening := by
        rcases closes with rfl | rfl
        · exact fun _ member => member
        · exact List.forall_mem_nil _
      obtain ⟨hiddenEnd, suffix, rfl⟩ := exists_ending opens literal inOpening
        (shown.symm.trans cut) starts
      exact lacksOrTagged_ending opens literal closes shown suffix
  · refine .inl fun behind rest => lacks_of_quiet rfl (fun cell member => ?_) _
    have known := List.mem_append_right part member
    rw [← cut] at known
    have trivial : (⟨mode.kind, mode.opening ++ mode.remainder inside⟩ :
      Region).IsTrivial := .inl comment
    exact isKeywordLetter_of_isBlank (by decide) (trivial.isBlank_shown known)

/-! ## Regions -/

/-- Characters that no word shows: blanks, and ends of delimiters. -/
def IsSeparator (character : Char) : Prop :=
  isBlank character = true ∨ endsDelimiter character = true

theorem IsSeparator.not_isWord {character : Char}
    (separates : IsSeparator character) :
    isWord character = false := by
  rw [Bool.eq_false_iff]
  intro word
  rcases separates with blank | ends
  · rw [not_isBlank_of_isWord word] at blank
    cases blank
  · rcases (by simpa [endsDelimiter] using ends :
      (character = '\'' ∨ character = '"') ∨ character = '$') with
        (rfl | rfl) | rfl <;> cases word

theorem IsSeparator.not_isKeywordLetter {character : Char}
    (separates : IsSeparator character)
    {letter : Char} (capital : letter.isUpper = true) :
    isKeywordLetter letter character = false := by
  rw [Bool.eq_false_iff]
  intro same
  rcases separates with blank | ends
  · rw [isKeywordLetter_of_isBlank capital blank] at same
    cases same
  · have alphabetic : letter.isAlpha = true :=
      (Bool.or_eq_true _ _).mpr (.inl capital)
    have other := (not_delimiter_of_isKeywordLetter alphabetic same).2.1
    exact absurd (other.symm.trans ends) (by decide)

/-- What a region other than code shows first. -/
theorem exists_separator_first {mode : Mode} (opens : mode.Opens)
    (inside : Text) :
    ∃ first others, (⟨mode.kind, mode.opening ++ mode.remainder inside⟩ :
      Region).cells = first :: others ∧ IsSeparator (shown first) := by
  rcases RegionKind.isLiteral_or_isComment opens.kind_ne_code with
    literal | comment
  · obtain ⟨hidden, closing, -, -, cells⟩ :=
      exists_cells_literal opens literal inside
    have starts : ∃ first others, mode.opening = first :: others ∧
        endsDelimiter first = true := by
      cases mode with
      | singleQuote => exact ⟨_, _, rfl, rfl⟩
      | doubleQuote => exact ⟨_, _, rfl, rfl⟩
      | dollarQuote tag => exact ⟨_, _, rfl, rfl⟩
      | _ => cases literal
    obtain ⟨first, others, opening, ends⟩ := starts
    exact ⟨.plain first, _, by rw [cells, opening]; rfl, .inr ends⟩
  · have nonempty := @Region.cells_ne_nil
      ⟨mode.kind, mode.opening ++ mode.remainder inside⟩
      (List.append_ne_nil_of_left_ne_nil opens.opening_ne_nil _)
    obtain ⟨first, others, cells⟩ := List.exists_cons_of_ne_nil nonempty
    have trivial : (⟨mode.kind, mode.opening ++ mode.remainder inside⟩ :
      Region).IsTrivial := .inl comment
    refine ⟨first, others, cells, .inl (trivial.isBlank_shown ?_)⟩
    rw [cells]
    exact List.mem_cons_self

/-- What a region other than code shows last, if something follows it. -/
theorem exists_separator_last {mode : Mode} (opens : mode.Opens)
    {inside rest : Text} (cut : mode.remainder inside ++ rest = inside)
    (goesOn : rest ≠ []) :
    ∃ last ∈ (⟨mode.kind, mode.opening ++ mode.remainder inside⟩ :
      Region).cells.getLast?, IsSeparator (shown last) := by
  rcases RegionKind.isLiteral_or_isComment opens.kind_ne_code with
    literal | comment
  · have closed : mode.opening <:+ mode.remainder inside :=
      ((Mode.remainder_closes literal cut).resolve_left goesOn).1
    obtain ⟨last, isLast, ends⟩ := last_of_literal opens literal closed
    exact ⟨last, isLast, .inr ends⟩
  · have nonempty := @Region.cells_ne_nil
      ⟨mode.kind, mode.opening ++ mode.remainder inside⟩
      (List.append_ne_nil_of_left_ne_nil opens.opening_ne_nil _)
    have trivial : (⟨mode.kind, mode.opening ++ mode.remainder inside⟩ :
      Region).IsTrivial := .inl comment
    exact ⟨_, List.getLast?_eq_some_getLast nonempty,
      .inl (trivial.isBlank_shown (List.getLast_mem nonempty))⟩

/-- A painted character of a region other than code shows a blank. -/
theorem shown_painted {kind : RegionKind} (notCode : kind ≠ .code)
    (character : Char) : shown (character, kind) = ' ' :=
  if_neg notCode

theorem isSeparator_blank : IsSeparator ' ' :=
  .inl isBlank_blank

/--
Regions start with a character of code, or what they show first separates
words, masked as well as painted.
-/
theorem code_or_separator (afterName : Bool) (text : Text) :
    (∃ character rest, lexemesFrom 0 afterName text = ⟨.code, [character]⟩ ::
      lexemesFrom 0 (continuesName character) rest) ∨
    ∀ test : Char → Bool, (∀ character, IsSeparator character →
      test character = false) →
        startsWith test
            ((lexemesFrom 0 afterName text).flatMap Region.cells) = false ∧
          startsWith test (painted (lexemesFrom 0 afterName text)) = false := by
  cases found : special? afterName text with
  | none =>
      cases text with
      | nil => exact .inr fun test _ => ⟨rfl, rfl⟩
      | cons character rest =>
          exact .inl ⟨character, rest, lexemesFrom_code found⟩
  | some region =>
      obtain ⟨⟨rest, rfl⟩, nonempty, notCode⟩ := special?_spec found
      obtain ⟨mode, inside, -, opens, -, equal⟩ :=
        special?_append_eq_some found
      obtain ⟨first, others, cells, separates⟩ :=
        exists_separator_first opens inside
      obtain ⟨character, more, text⟩ := List.exists_cons_of_ne_nil nonempty
      refine .inr fun test fails => ?_
      rw [lexemesFrom_special found, List.flatMap_cons, painted_cons]
      constructor
      · rw [equal, cells]
        exact fails _ separates
      · have blank := fails _ isSeparator_blank
        rw [← shown_painted notCode character] at blank
        rw [text]
        exact blank

section

variable {α : Type} [Shown α]

/-- What it takes to read the word at a place. -/
def ReadsAs (behind : List α) (first second : α) (rest : List α) : Prop :=
  (startsWith isWord behind != isWord (shown first)) = true ∧
    isKeywordLetter 'A' (shown first) = true ∧
    isKeywordLetter 'S' (shown second) = true ∧ startsWith isWord rest = false

instance (behind : List α) (first second : α) (rest : List α) :
    Decidable (ReadsAs behind first second rest) :=
  inferInstanceAs (Decidable (_ ∧ _ ∧ _ ∧ _))

theorem wholeWord?_as (behind : List α) (first second : α) (rest : List α) :
    wholeWord? "AS" behind (first :: second :: rest) =
      if ReadsAs behind first second rest then some rest else none := by
  have keyword : keyword? "AS" (first :: second :: rest) =
      if isKeywordLetter 'A' (shown first) then
        if isKeywordLetter 'S' (shown second) then some rest else none
      else none := rfl
  have boundary : isBoundary behind (first :: second :: rest) =
      (startsWith isWord behind != isWord (shown first)) := rfl
  rw [wholeWord?, keyword, boundary]
  by_cases bounds : (startsWith isWord behind != isWord (shown first)) = true
  · rw [if_pos bounds]
    by_cases starts : isKeywordLetter 'A' (shown first) = true
    · rw [if_pos starts]
      by_cases ends : isKeywordLetter 'S' (shown second) = true
      · rw [if_pos ends]
        cases goesOn : startsWith isWord rest with
        | true =>
            rw [if_neg fun reads : ReadsAs behind first second rest =>
              absurd (reads.2.2.2.symm.trans goesOn) (by decide)]
            exact if_pos goesOn
        | false =>
            have reads : ReadsAs behind first second rest :=
              ⟨bounds, starts, ends, goesOn⟩
            rw [if_pos reads]
            exact if_neg (ne_true_of_eq_false goesOn)
      · rw [if_neg ends, if_neg fun reads => ends reads.2.2.1]
    · rw [if_neg starts, if_neg fun reads => starts reads.2.1]
  · rw [if_neg bounds, if_neg fun reads => bounds reads.1]

theorem wholeWord?_as_of_apart (behind : List α) (first : α) {rest : List α}
    (apart : startsWith (isKeywordLetter 'S') rest = false) :
    wholeWord? "AS" behind (first :: rest) = none := by
  cases rest with
  | nil =>
      have keyword : keyword? "AS" [first] = none := ite_self none
      rw [wholeWord?, keyword]
      exact ite_self none
  | cons second others =>
      rw [wholeWord?_as, if_neg]
      intro reads
      exact absurd (apart.symm.trans reads.2.2.1) (by decide)

end

/-- The word is read alike in a masked script and in a painted one. -/
theorem wholeWord?_alike {behind : List Cell}
    {front : List (Char × RegionKind)}
    (alike : startsWith isWord behind = startsWith isWord front)
    (character : Char) (afterName : Bool) (text : Text) :
    (wholeWord? "AS" behind (.plain character ::
        (lexemesFrom 0 afterName text).flatMap Region.cells) = none ∧
      wholeWord? "AS" front ((character, .code) ::
        painted (lexemesFrom 0 afterName text)) = none) ∨
    ∃ done others, lexemesFrom 0 afterName text = done ++ others ∧
      wholeWord? "AS" behind (.plain character ::
        (lexemesFrom 0 afterName text).flatMap Region.cells) =
          some (others.flatMap Region.cells) ∧
      wholeWord? "AS" front ((character, .code) ::
        painted (lexemesFrom 0 afterName text)) = some (painted others) := by
  rcases code_or_separator afterName text with ⟨second, rest, whole⟩ | separates
  · have after : startsWith isWord
        ((lexemesFrom 0 (continuesName second) rest).flatMap Region.cells) =
      startsWith isWord
        (painted (lexemesFrom 0 (continuesName second) rest)) := by
      rcases code_or_separator (continuesName second) rest with
        ⟨third, more, following⟩ | separates
      · rw [following]
        rfl
      · obtain ⟨masked, code⟩ :=
          separates isWord fun _ separates => separates.not_isWord
        rw [masked, code]
    rw [whole, List.flatMap_cons, painted_cons]
    have same : ReadsAs front (character, .code) (second, .code)
          (painted (lexemesFrom 0 (continuesName second) rest)) ↔
        ReadsAs behind (.plain character) (.plain second)
          ((lexemesFrom 0 (continuesName second) rest).flatMap
            Region.cells) := by
      rw [ReadsAs, ReadsAs, alike, after]
      exact Iff.rfl
    have masked := wholeWord?_as behind (.plain character) (.plain second)
      ((lexemesFrom 0 (continuesName second) rest).flatMap Region.cells)
    have code := wholeWord?_as front (character, .code) (second, .code)
      (painted (lexemesFrom 0 (continuesName second) rest))
    by_cases reads : ReadsAs behind (.plain character) (.plain second)
        ((lexemesFrom 0 (continuesName second) rest).flatMap Region.cells)
    · rw [if_pos reads] at masked
      rw [if_pos (same.mpr reads)] at code
      exact .inr ⟨[⟨.code, [second]⟩], _, rfl, masked, code⟩
    · rw [if_neg reads] at masked
      rw [if_neg fun others => reads (same.mp others)] at code
      exact .inl ⟨masked, code⟩
  · have quiet := separates (isKeywordLetter 'S') fun _ separates =>
      separates.not_isKeywordLetter (by decide)
    exact .inl ⟨wholeWord?_as_of_apart behind _ quiet.1,
      wholeWord?_as_of_apart front _ quiet.2⟩

/-! ## Searching -/

/-- What a search for the word finds. -/
abbrev Found (α : Type) : Type :=
  Option (List α × Unit × List α)

/--
How a search for the word ends in a masked script, against how it ends in the
painted one: what follows the word is the same, or the word is a tag in front
of the word of code.
-/
inductive WordFound (regions : List Region) :
    Found Cell → Found (Char × RegionKind) → Prop where
  | nowhere {code : Found (Char × RegionKind)} : WordFound regions none code
  | inCode {before : List Cell} {front : List (Char × RegionKind)}
      (done : List Region) {rest : List Region}
      (parts : regions = done ++ rest) :
      WordFound regions (some (before, (), rest.flatMap Region.cells))
        (some (front, (), painted rest))
  | inTag {before : List Cell} {code : Found (Char × RegionKind)}
      (done : List Region) {rest : List Region} {literal : Region}
      {part inside : List Cell} (parts : regions = done ++ literal :: rest)
      (tagged : literal.IsTaggedBy "AS") (nonempty : part ≠ [])
      (cut : literal.cells = part ++ .plain '$' :: inside)
      (later : ∀ found ∈ code, found.2.2 <:+ painted rest) :
      WordFound regions
        (some (before, (), .plain '$' :: (inside ++ rest.flatMap Region.cells)))
        code

theorem WordFound.append {regions : List Region} {masked : Found Cell}
    {code : Found (Char × RegionKind)} (found : WordFound regions masked code)
    (front : List Region) : WordFound (front ++ regions) masked code := by
  cases found with
  | nowhere => exact .nowhere
  | inCode done parts =>
      exact .inCode (front ++ done) (by rw [parts, List.append_assoc])
  | inTag done parts tagged nonempty cut later =>
      exact .inTag (front ++ done) (by rw [parts, List.append_assoc]) tagged
        nonempty cut later

theorem startsWith_reverse_append {α : Type} [Shown α] {test : Char → Bool}
    {list : List α} {last : α} (isLast : list.getLast? = some last)
    (behind : List α) :
    startsWith test (list.reverse ++ behind) = test (shown last) := by
  obtain ⟨front, rfl⟩ := List.getLast?_eq_some_iff.mp isLast
  rw [List.reverse_append]
  rfl

/-- What a masked script and a painted one show from the same place on. -/
def SearchedAlike (regions : List Region) : Prop :=
  ∀ (behind : List Cell) (front : List (Char × RegionKind)),
    startsWith isWord behind = startsWith isWord front →
      WordFound regions
        (findFirst asKeyword? behind (regions.flatMap Region.cells))
        (findFirst asKeyword? front (painted regions))

/-- Searching passes over what a region shows, or ends in its tag. -/
theorem SearchedAlike.behind_region {mode : Mode} (opens : mode.Opens)
    {inside text : Text} {others : List Region} {part ending : List Cell}
    (closes : mode.remainder inside ++ textOf others = inside)
    (cut : (⟨mode.kind, mode.opening ++ mode.remainder inside⟩ :
      Region).cells = part ++ ending)
    (starts : part = [] ∨ startsWith isBlank ending = true)
    (nonempty : ending ≠ []) (written : text ≠ [])
    (real : ∀ region ∈ others, region.text ≠ [])
    (alike : SearchedAlike others)
    (behind : List Cell) (front : List (Char × RegionKind)) :
    WordFound (⟨mode.kind, mode.opening ++ mode.remainder inside⟩ :: others)
      (findFirst asKeyword? behind (ending ++ others.flatMap Region.cells))
      (findFirst asKeyword? front
        (text.map (fun character => (character, mode.kind)) ++
          painted others)) := by
  generalize unseen : text.map (fun character => (character, mode.kind)) =
    hidden
  have blank : ∀ element ∈ hidden, shown element = ' ' := by
    rw [← unseen]
    intro element member
    obtain ⟨character, -, rfl⟩ := List.mem_map.mp member
    exact shown_painted opens.kind_ne_code character
  have quiet : ∀ element ∈ hidden,
      isKeywordLetter 'A' (shown element) = false := by
    intro element member
    rw [blank element member]
    decide
  rw [startsIn_asKeyword?.findFirst_append quiet]
  rcases lacksOrTagged opens cut starts with lacks | ⟨tagged, found⟩
  · rw [keyedBy_asKeyword?.findFirst_append (lacks behind _)]
    by_cases nothing : textOf others = []
    · rw [eq_nil_of_textOf_eq_nil real nothing]
      exact .nowhere
    · obtain ⟨last, isLast, separates⟩ :=
        exists_separator_last opens closes nothing
      have some : hidden ≠ [] := by
        rw [← unseen]
        exact fun empty => written (List.map_eq_nil_iff.mp empty)
      have lastHidden := List.getLast?_eq_some_getLast some
      have lastEnding : ending.getLast? = Option.some last := by
        rw [cut, List.getLast?_append,
          List.getLast?_eq_some_getLast nonempty] at isLast
        rw [List.getLast?_eq_some_getLast nonempty]
        exact isLast
      refine (alike _ _ ?_).append [_]
      rw [startsWith_reverse_append lastEnding,
        startsWith_reverse_append lastHidden, separates.not_isWord,
        blank _ (List.getLast_mem some)]
      exact isSeparator_blank.not_isWord.symm
  · obtain ⟨before, front, shown, some, cut, found⟩ := found behind
      (others.flatMap Region.cells)
    rw [found]
    exact .inTag [] rfl tagged some cut fun _ => suffix_of_findFirst_asKeyword?

section

variable {α : Type} [Shown α] {behind : List α} {element : α} {rest : List α}

theorem findFirst_asKeyword?_of_none
    (noWord : wholeWord? "AS" behind (element :: rest) = none) :
    findFirst asKeyword? behind (element :: rest) =
      findFirst asKeyword? (element :: behind) rest := by
  rw [findFirst, asKeyword?, noWord]
  rfl

theorem findFirst_asKeyword?_of_some {after : List α}
    (word : wholeWord? "AS" behind (element :: rest) = some after) :
    findFirst asKeyword? behind (element :: rest) =
      some (behind, (), after) := by
  rw [findFirst, asKeyword?, word]
  rfl

end

/-- Searching passes over a character of code, or finds the word there. -/
theorem SearchedAlike.behind_code {character : Char} {rest : Text}
    (next : SearchedAlike (lexemesFrom 0 (continuesName character) rest)) :
    SearchedAlike (⟨.code, [character]⟩ ::
      lexemesFrom 0 (continuesName character) rest) := by
  intro behind front alike
  change WordFound _
    (findFirst asKeyword? behind (.plain character ::
      (lexemesFrom 0 (continuesName character) rest).flatMap Region.cells))
    (findFirst asKeyword? front ((character, .code) ::
      painted (lexemesFrom 0 (continuesName character) rest)))
  rcases wholeWord?_alike alike character (continuesName character) rest with
    ⟨noWord, noCode⟩ | ⟨done, others, whole, word, codeWord⟩
  · have same : startsWith isWord (Cell.plain character :: behind) =
      startsWith isWord ((character, RegionKind.code) :: front) := rfl
    rw [findFirst_asKeyword?_of_none noWord, findFirst_asKeyword?_of_none noCode]
    exact (next _ _ same).append [_]
  · rw [findFirst_asKeyword?_of_some word, findFirst_asKeyword?_of_some codeWord]
    exact .inCode (⟨.code, [character]⟩ :: done) (by rw [whole]; rfl)

/-- The word is found alike in the code of a script, masked or painted. -/
theorem searchedAlike_lexemesFrom (afterName : Bool) (text : Text) :
    SearchedAlike (lexemesFrom 0 afterName text) := by
  induction afterName, text using lexemeInduction with
  | nil => exact fun _ _ _ => .nowhere
  | special afterName region rest found ih =>
      intro behind front _
      obtain ⟨-, nonempty, -⟩ := special?_spec found
      obtain ⟨mode, inside, -, opens, closes, rfl⟩ :=
        special?_append_eq_some found
      have real : ∀ next ∈ lexemesFrom 0 (nameBehind afterName
          (mode.opening ++ mode.remainder inside)) rest, next.text ≠ [] :=
        fun next member => (isLexeme_of_mem_lexemesFrom _ _ next member).1
      rw [lexemesFrom_special found, List.flatMap_cons, painted_cons]
      refine SearchedAlike.behind_region opens ?_ (List.nil_append _).symm
        (.inl rfl) (Region.cells_ne_nil nonempty) nonempty real ih behind front
      rw [textOf_lexemesFrom]
      exact closes
  | code afterName character rest absent ih =>
      rw [lexemesFrom_code absent]
      exact .behind_code ih

/-! ## From a place on -/

theorem length_painted (regions : List Region) :
    (painted regions).length = (textOf regions).length := by
  rw [← map_fst_painted, List.length_map]

theorem Whole.ne_nil_of_source {list : List Cell} (whole : Whole list)
    (nonempty : list ≠ []) {text : Text} (source : source? list = some text) :
    text ≠ [] := by
  rintro rfl
  cases whole with
  | nil => exact nonempty rfl
  | plain character whole =>
      rw [source?_plain] at source
      obtain ⟨others, -, same⟩ := Option.map_eq_some_iff.mp source
      cases same
  | veiled hides character whole =>
      rw [source?_veiled] at source
      obtain ⟨others, -, same⟩ := Option.map_eq_some_iff.mp source
      cases same

theorem searchedAlike_of_regions {statement : Text}
    {first second : List Region}
    (parts : lexemes statement = first ++ second) : SearchedAlike second := by
  rw [← lexemesFrom_of_eq_append parts]
  exact searchedAlike_lexemesFrom _ _

/-- From the start of a region on, the word is found alike. -/
theorem wordFound_of_regions {statement : Text} {first second : List Region}
    (parts : lexemes statement = first ++ second) :
    WordFound (lexemes statement)
      (findFirst asKeyword? [] (second.flatMap Region.cells))
      (findFirst asKeyword? [] ((painted (lexemes statement)).drop
        (statement.length - (textOf second).length))) := by
  have whole : statement = textOf first ++ textOf second := by
    rw [← textOf_append, ← parts, textOf_lexemes]
  have size : statement.length - (textOf second).length =
      (painted first).length := by
    rw [length_painted, whole, List.length_append, Nat.add_sub_cancel]
  have alike := searchedAlike_of_regions parts
  rw [size, parts, painted_append, List.drop_left]
  exact (alike _ _ rfl).append first

/-- A name that ends within a comment or a literal ends at a blank of it. -/
theorem startsWith_isBlank_of_cut {statement : Text} {region : Region}
    (member : region ∈ lexemes statement) (hidden : region.kind ≠ .code)
    {part ending : List Cell} (cut : region.cells = part ++ ending)
    (nonempty : ending ≠ [])
    (starts : ∀ next ∈ ending.head?, endsName (shown next) = true) :
    startsWith isBlank ending = true := by
  obtain ⟨next, others, rfl⟩ := List.exists_cons_of_ne_nil nonempty
  have inside : next ∈ region.cells := by
    rw [cut]
    exact List.mem_append_right part List.mem_cons_self
  have noMark : ¬ isMark (shown next) = true := fun mark =>
    hidden (congrArg Region.kind (eq_of_shows_mark member inside mark))
  have ends : (isBlank (shown next) = true ∨ shown next = '(') ∨
      shown next = ';' := by
    simpa [endsName] using starts next rfl
  rcases ends with (blank | opened) | closed
  · exact blank
  · exact absurd (by rw [opened]; decide) noMark
  · exact absurd (by rw [closed]; decide) noMark

/-- The text of a region that is cut between two characters is cut as well. -/
theorem exists_text_of_cut {statement : Text} {first second : List Region}
    {region : Region} {part ending : List Cell}
    (whole : lexemes statement = first ++ region :: second)
    (cut : region.cells = part ++ ending) (nonempty : ending ≠ [])
    (apart : Apart (first.flatMap Region.cells ++ part)
      (ending ++ second.flatMap Region.cells)) :
    ∃ kept text, region.text = kept ++ text ∧ text ≠ [] ∧
      source? (ending ++ second.flatMap Region.cells) =
        some (text ++ textOf second) := by
  have script := whole_cells statement
  rw [cells, whole, List.flatMap_append, List.flatMap_cons, cut,
    List.append_assoc, ← List.append_assoc] at script
  obtain ⟨before, -⟩ := script.of_append (script.not_startsInside apart)
  obtain ⟨-, wholePart⟩ := before.of_source (source?_regions first)
  obtain ⟨kept, sourceKept, -⟩ := wholePart.exists_source
  have wholeRegion := Whole.region region
  rw [cut] at wholeRegion
  obtain ⟨-, wholeEnding⟩ := wholeRegion.of_source sourceKept
  obtain ⟨text, sourceEnding, -⟩ := wholeEnding.exists_source
  have regionText := source?_region region
  rw [cut, source?_append sourceKept sourceEnding] at regionText
  exact ⟨kept, text, (Option.some.inj regionText).symm,
    wholeEnding.ne_nil_of_source nonempty sourceEnding,
    source?_append sourceEnding (source?_regions second)⟩

/-- What a script paints behind a cut of one of its regions. -/
theorem painted_behind_cut {statement kept text : Text}
    {first second : List Region} {region : Region}
    (whole : lexemes statement = first ++ region :: second)
    (parts : region.text = kept ++ text) :
    (painted (lexemes statement)).drop
        (statement.length - (text ++ textOf second).length) =
      text.map (fun character => (character, region.kind)) ++
        painted second := by
  have size : statement.length - (text ++ textOf second).length =
      (painted first ++ kept.map fun character =>
        (character, region.kind)).length := by
    have same := textOf_lexemes statement
    rw [whole, textOf_append, textOf_cons, parts] at same
    simp only [← same, List.length_append, length_painted, List.length_map]
    omega
  have paint : painted (lexemes statement) =
      (painted first ++ kept.map fun character => (character, region.kind)) ++
        (text.map (fun character => (character, region.kind)) ++
          painted second) := by
    rw [whole, painted_append, painted_cons, parts]
    simp only [List.map_append, List.append_assoc]
  rw [size, paint, List.drop_left]

/-- From the end of a name on, the word is found alike. -/
theorem wordFound_of_endsName {statement following : Text} {tail : List Cell}
    (leaves : Leaves (cells statement) tail)
    (source : source? tail = some following)
    (starts : ∀ next ∈ tail.head?, endsName (shown next) = true) :
    WordFound (lexemes statement) (findFirst asKeyword? [] tail)
      (findFirst asKeyword? [] ((painted (lexemes statement)).drop
        (statement.length - following.length))) := by
  obtain ⟨front, parts, apart⟩ := leaves
  rcases exists_cut parts with
    ⟨first, second, whole, -, rfl⟩ |
    ⟨first, region, second, part, ending, whole, cut, inPart, nonempty, rfl,
      rfl⟩
  · rw [source?_regions] at source
    cases source
    exact wordFound_of_regions whole
  have member : region ∈ lexemes statement := by
    rw [whole]
    exact List.mem_append_right _ List.mem_cons_self
  have real : ∀ next ∈ second, next.text ≠ [] := by
    intro next known
    have later := List.mem_append_right first (List.mem_cons_of_mem region known)
    rw [← whole] at later
    exact (isLexeme_of_mem_lexemes later).1
  obtain ⟨kept, text, regionText, written, behind⟩ :=
    exists_text_of_cut whole cut nonempty apart
  rw [behind] at source
  cases source
  obtain ⟨mode, inside, opens, closes, equal⟩ :=
    mode_of_cut (lexemesFrom_of_eq_append whole) cut inPart nonempty
  have kind : region.kind = mode.kind := congrArg Region.kind equal
  have blank := startsWith_isBlank_of_cut member
    (by rw [kind]; exact opens.kind_ne_code) cut nonempty fun next isNext =>
      starts next (by rw [List.head?_append, isNext]; rfl)
  have alike := SearchedAlike.behind_region opens closes
    (by rw [← equal]; exact cut) (.inr blank) nonempty written real
    (searchedAlike_of_regions (by rw [List.append_cons] at whole; exact whole))
    [] []
  rw [painted_behind_cut whole regionText, whole, equal]
  exact alike.append first

end Snowform
