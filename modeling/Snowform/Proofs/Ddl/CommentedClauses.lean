import Snowform.Proofs.Ddl.Derived
import Snowform.Proofs.Lexical.Parting
import Snowform.Proofs.Lexical.Revealing

/-!
# Comment clauses with comments

A comment clause is a keyword, an equals sign and a string.  Its text is taken
from the statement itself, from the first quote on.  Comments between the
parts of the clause change nothing of it as long as they hold no quote.
-/

namespace Snowform

open Text Lexical

namespace Lexical

/-- Where a character of a source comes from. -/
theorem exists_cell_of_mem_source {missing : Nat} {list : List Cell}
    {text : Text} (source : sourceFrom? missing list = some text)
    {character : Char} (member : character ∈ text) :
    .plain character ∈ list ∨ ∃ fill, .veiled fill character ∈ list := by
  induction list generalizing missing text with
  | nil =>
      cases missing with
      | zero =>
          cases source
          cases member
      | succ missing => cases source
  | cons cell rest ih =>
      have later : ∀ {missing : Nat} {others : Text},
          sourceFrom? missing rest = some others → character ∈ others →
            .plain character ∈ cell :: rest ∨
              ∃ fill, .veiled fill character ∈ cell :: rest := by
        intro missing others known inside
        refine (ih known inside).imp (List.mem_cons_of_mem _) ?_
        rintro ⟨fill, hidden⟩
        exact ⟨fill, List.mem_cons_of_mem _ hidden⟩
      cases missing with
      | succ missing =>
          cases cell with
          | padding fill => exact later source member
          | plain other => cases source
          | veiled fill other => cases source
      | zero =>
          cases cell with
          | padding fill => cases source
          | plain other =>
              obtain ⟨others, known, rfl⟩ := Option.map_eq_some_iff.mp source
              rcases List.mem_cons.mp member with rfl | inside
              · exact Or.inl List.mem_cons_self
              · exact later known inside
          | veiled fill other =>
              obtain ⟨others, known, rfl⟩ := Option.map_eq_some_iff.mp source
              rcases List.mem_cons.mp member with rfl | inside
              · exact Or.inr ⟨fill, List.mem_cons_self⟩
              · exact later known inside


/-! ## Strings -/

/-- A region other than code is read by its mode from what follows it. -/
theorem exists_mode_of_parts {script : Text} {first others : List Region}
    {region : Region} (parts : lexemes script = first ++ region :: others)
    (special : region.kind ≠ .code) :
    ∃ (mode : Mode) (behind : Text), mode.Opens ∧
      region = ⟨mode.kind, mode.opening ++ mode.remainder behind⟩ ∧
      mode.remainder behind ++ textOf others = behind := by
  have here := lexemesFrom_of_eq_append parts
  generalize nameBehind false (textOf first) = afterName at here
  rw [textOf_cons] at here
  cases text : region.text ++ textOf others with
  | nil =>
      rw [text] at here
      cases here
  | cons character rest =>
      rw [text] at here
      cases found : special? afterName (character :: rest) with
      | none =>
          rw [lexemesFrom_code found] at here
          rw [← (List.cons.inj here).1] at special
          exact absurd rfl special
      | some known =>
          obtain ⟨⟨behind, whole⟩, -, -⟩ := special?_spec found
          rw [← whole] at here found text
          rw [lexemesFrom_special found] at here
          obtain ⟨rfl, -⟩ := List.cons.inj here
          have same : textOf others = behind := List.append_cancel_left text
          obtain ⟨mode, inside, -, opens, cut, equal⟩ :=
            special?_append_eq_some found
          exact ⟨mode, inside, opens, equal, same ▸ cut⟩

/-- A region shows blanks only, or its first cell is not blank. -/
inductive ShowsFirst (region : Region) : Prop where
  | blank (all : ∀ cell ∈ region.cells, isBlank (shown cell) = true)
  | visible {first : Cell} {rest : List Cell}
      (cells : region.cells = first :: rest)
      (visible : isBlank (shown first) = false)
      (string : shown first = '\'' → region.kind = .singleQuote)

theorem showsFirst_code {script : Text} {first others : List Region}
    {character : Char}
    (parts : lexemes script = first ++ ⟨.code, [character]⟩ :: others) :
    ShowsFirst ⟨.code, [character]⟩ := by
  cases blank : isBlank character with
  | true =>
      refine .blank ?_
      intro cell member
      rw [List.mem_singleton.mp member]
      exact blank
  | false =>
      have cells : Region.cells ⟨.code, [character]⟩ = [.plain character] := rfl
      refine .visible cells blank ?_
      -- A quote of code would have opened a string.
      rintro rfl
      have here := lexemesFrom_of_eq_append parts
      generalize nameBehind false (textOf first) = afterName at here
      have found : special? afterName ('\'' :: textOf others) =
          some ⟨.singleQuote, '\'' :: quotedRest '\'' (textOf others)⟩ := rfl
      change lexemesFrom 0 afterName ('\'' :: textOf others) = _ at here
      rw [lexemesFrom, found] at here
      cases here

theorem showsFirst_special {mode : Mode} (opens : mode.Opens) (behind : Text) :
    ShowsFirst ⟨mode.kind, mode.opening ++ mode.remainder behind⟩ := by
  rcases RegionKind.isLiteral_or_isComment opens.kind_ne_code with
    literal | comment
  · have cells := Region.cells_literal literal
      (Mode.delimiter_region opens literal (mode.remainder behind)) rfl
    cases mode with
    | singleQuote => exact .visible cells (by decide) fun _ => rfl
    | doubleQuote =>
        exact .visible cells (by decide) (by simp [shown, Cell.visible])
    | dollarQuote tag =>
        exact .visible cells (by decide) (by simp [shown, Cell.visible])
    | _ => cases literal
  · refine .blank ?_
    intro cell member
    have hidden : cell ∈ (mode.opening ++ mode.remainder behind).flatMap
        (veil ' ') := by
      cases mode with
      | lineComment => exact member
      | blockComment => exact member
      | _ => cases comment
    exact forall_shown_of_veil (isBlank · = true) (by decide) (by decide)
      cell hidden

theorem showsFirst_of_parts {script : Text} {first others : List Region}
    {region : Region} (parts : lexemes script = first ++ region :: others) :
    ShowsFirst region := by
  by_cases code : region.kind = .code
  · have member : region ∈ lexemes script := by
      rw [parts]
      exact List.mem_append_right _ List.mem_cons_self
    obtain ⟨character, text⟩ := (isLexeme_of_mem_lexemes member).2 code
    obtain ⟨kind, text⟩ := region
    subst code text
    exact showsFirst_code parts
  · obtain ⟨mode, behind, opens, rfl, -⟩ := exists_mode_of_parts parts code
    exact showsFirst_special opens behind

/-- What shows a single quote first behind blanks is a string. -/
theorem exists_string_behind_blanks {script : Text}
    {before regions : List Region} (parts : lexemes script = before ++ regions)
    {quote : Cell} {inside : List Cell} (mark : shown quote = '\'')
    (starts : skipBlanks (regions.flatMap Region.cells) = quote :: inside) :
    ∃ front region others, regions = front ++ region :: others ∧
      (∀ cell ∈ front.flatMap Region.cells, isBlank (shown cell) = true) ∧
      region.kind = .singleQuote ∧
      region.cells ++ others.flatMap Region.cells = quote :: inside := by
  induction regions generalizing before with
  | nil => cases starts
  | cons region others ih =>
      rw [List.flatMap_cons, skipBlanks] at starts
      cases showsFirst_of_parts parts with
      | blank all =>
          rw [List.dropWhile_append_of_pos (p := shows isBlank) all] at starts
          rw [List.append_cons] at parts
          obtain ⟨front, string, rest, rfl, blanks, found⟩ := ih parts starts
          refine ⟨region :: front, string, rest, rfl, ?_, found⟩
          rw [List.flatMap_cons, List.forall_mem_append]
          exact ⟨all, blanks⟩
      | @visible first rest cells visible string =>
          rw [cells, List.cons_append, List.dropWhile_cons_of_neg
            (by exact Bool.eq_false_iff.mp visible)] at starts
          obtain ⟨rfl, -⟩ := List.cons.inj starts
          refine ⟨[], region, others, rfl, by simp, string mark, ?_⟩
          rw [cells, List.cons_append]
          exact starts

/-- A string, and what follows its first quote up to the next one. -/
theorem dropWhile_string {script : Text} {first others : List Region}
    {region : Region} (parts : lexemes script = first ++ region :: others)
    (string : region.kind = .singleQuote) {quote : Cell} {inside : List Cell}
    (cells : region.cells ++ others.flatMap Region.cells = quote :: inside) :
    ((character? '\'' (inside.dropWhile (shows (· != '\'')))).getD
      (inside.dropWhile (shows (· != '\'')))) =
        others.flatMap Region.cells := by
  obtain ⟨mode, behind, opens, equal, cut⟩ :=
    exists_mode_of_parts parts (by rw [string]; decide)
  have isString : mode = .singleQuote := by
    rw [equal] at string
    cases mode with
    | singleQuote => rfl
    | _ => cases string
  subst isString
  have literal : Mode.singleQuote.kind.isLiteral = true := rfl
  have hidden : ∀ text : Text, ∀ cell ∈ text.flatMap (veil '_'),
      shows (· != '\'') cell = true :=
    fun _ => forall_shown_of_veil (fun shown => (shown != '\'') = true)
      (by decide) (by decide)
  have delimited := Mode.delimiter_region opens literal
    (Mode.singleQuote.remainder behind)
  rw [← equal] at delimited
  have maskedAs := Mode.maskedAs opens literal cut
  rw [← equal] at maskedAs
  cases maskedAs with
  | closed body whole masked follows =>
      rw [Region.cells_closed (by rw [string]; rfl) delimited whole] at cells
      obtain ⟨-, rest⟩ := List.cons.inj cells
      change body.flatMap (veil '_') ++ [.plain '\''] ++ _ = inside at rest
      rw [← rest, List.append_assoc,
        List.dropWhile_append_of_pos (hidden body)]
      rfl
  | unclosed body whole stays masked ends =>
      have nothing : others.flatMap Region.cells = [] := by
        have nonempty : ∀ next ∈ others, next.text ≠ [] := by
          intro next member
          have known : next ∈ lexemes script := by
            rw [parts]
            simp [member]
          exact (isLexeme_of_mem_lexemes known).1
        rw [eq_nil_of_textOf_eq_nil nonempty ends]
        rfl
      rw [Region.cells_unclosed (by rw [string]; rfl) delimited whole stays,
        nothing, List.append_nil] at cells
      obtain ⟨-, rest⟩ := List.cons.inj cells
      change body.flatMap (veil '_') = inside at rest
      rw [← rest, nothing, List.dropWhile_eq_nil_iff.mpr (hidden body)]
      rfl

theorem exists_of_character? {α : Type} [Shown α] {expected : Char}
    {list rest : List α} (found : character? expected list = some rest) :
    ∃ element, list = element :: rest ∧ shown element = expected := by
  cases list with
  | nil => cases found
  | cons element others =>
      rw [character?] at found
      split at found
      next same =>
        cases found
        exact ⟨element, rfl, same⟩
      next => cases found

theorem exists_blanks {α : Type} [Shown α] {list rest : List α}
    (behind : skipBlanks list = rest) :
    ∃ blanks, list = blanks ++ rest ∧
      ∀ element ∈ blanks, isBlank (shown element) = true := by
  refine ⟨list.takeWhile (shows isBlank), ?_, ?_⟩
  · rw [← behind]
    exact List.takeWhile_append_dropWhile.symm
  · intro element member
    exact List.mem_takeWhile_imp (p := shows isBlank) member

/-- Every element of a spelling spells a letter of the word. -/
theorem exists_letter_of_spelling {α : Type} [Shown α] {word : Text}
    {spelling : List α}
    (spelled : List.Forall₂ (fun letter element =>
      isKeywordLetter letter (shown element) = true) word spelling)
    {element : α} (member : element ∈ spelling) :
    ∃ letter ∈ word, isKeywordLetter letter (shown element) = true := by
  induction spelled with
  | nil => cases member
  | cons same _ ih =>
      rcases List.mem_cons.mp member with rfl | later
      · exact ⟨_, List.mem_cons_self, same⟩
      · obtain ⟨letter, inWord, same⟩ := ih later
        exact ⟨letter, List.mem_cons_of_mem _ inWord, same⟩

/-- No letter is a quote or the fill. -/
theorem clear_of_mem_spelling {α : Type} [Shown α] {word : Text}
    {spelling : List α}
    (letters : ∀ letter ∈ word, letter.isAlpha = true)
    (spelled : List.Forall₂ (fun letter element =>
      isKeywordLetter letter (shown element) = true) word spelling) :
    ∀ element ∈ spelling, shown element ≠ '\'' ∧ shown element ≠ '_' := by
  intro element member
  obtain ⟨letter, inWord, same⟩ := exists_letter_of_spelling spelled member
  obtain ⟨noFill, noDelimiter, -⟩ :=
    not_delimiter_of_isKeywordLetter (letters letter inWord) same
  constructor
  · intro quote
    rw [quote] at noDelimiter
    cases noDelimiter
  · intro fill
    rw [fill] at noFill
    cases noFill

theorem clear_of_isBlank {character : Char}
    (blank : isBlank character = true) :
    character ≠ '\'' ∧ character ≠ '_' := by
  constructor <;>
    · rintro rfl
      cases blank

end Lexical

/-! ## The clause -/

/-- A comment clause is a front without quotes, and a string. -/
theorem exists_string_of_commentClause? {statement : Text}
    {before behind ahead clause after : List Cell}
    (parts : cells statement = before ++ ahead)
    (found : commentClause? behind ahead = some (clause, after)) :
    ∃ front region, clause = front ++ Region.cells region ∧
      region ∈ lexemes statement ∧ region.kind = .singleQuote ∧
      ∀ cell ∈ front, shown cell ≠ '\'' ∧ shown cell ≠ '_' := by
  obtain ⟨keyword, known, found⟩ := exists_keyword_of_clause? found
  obtain ⟨equals, equal, found⟩ := Option.bind_eq_some_iff.mp found
  obtain ⟨inside, quote, found⟩ := Option.bind_eq_some_iff.mp found
  obtain ⟨rfl, rfl⟩ := Prod.mk.inj (Option.some.inj found)
  obtain ⟨spelling, rfl, spelled⟩ := exists_spelling known
  obtain ⟨sign, behindKeyword, isSign⟩ := exists_of_character? equal
  obtain ⟨mark, behindSign, isQuote⟩ := exists_of_character? quote
  obtain ⟨space, rfl, blank⟩ := exists_blanks behindKeyword
  have isSignMark : isMark (shown sign) = true := by
    rw [isSign]
    decide
  have whole : cells statement =
      (before ++ (spelling ++ space)) ++ sign :: equals := by
    rw [parts]
    simp
  obtain ⟨first, second, cut, -, rfl⟩ := exists_lexemes_of_mark isSignMark whole
  rw [List.append_cons] at cut
  obtain ⟨blanks, region, others, rfl, moreBlank, string, cells⟩ :=
    exists_string_behind_blanks cut isQuote behindSign
  rw [← List.append_assoc] at cut
  have ends := dropWhile_string cut string cells
  refine ⟨spelling ++ (space ++ sign :: blanks.flatMap Region.cells),
    region, ?_, ?_, string, ?_⟩
  · rw [ends]
    have whole : spelling ++ (space ++
        sign :: (blanks ++ region :: others).flatMap Region.cells) =
        spelling ++ (space ++ sign :: blanks.flatMap Region.cells) ++
          region.cells ++ others.flatMap Region.cells := by
      simp
    rw [whole, upTo_append]
  · rw [cut]
    exact List.mem_append_right _ List.mem_cons_self
  · have letters : ∀ letter ∈ String.toList "COMMENT",
        letter.isAlpha = true :=
      List.all_eq_true.mp (by decide)
    simp only [List.forall_mem_append, List.forall_mem_cons]
    refine ⟨clear_of_mem_spelling letters spelled, fun cell member => ?_, ?_,
      fun cell member => ?_⟩
    · exact clear_of_isBlank (blank cell member)
    · rw [isSign]
      decide
    · exact clear_of_isBlank (moreBlank cell member)

theorem Whole.revealed {list : List Cell} (whole : Whole list) :
    Whole (revealed list) := by
  induction whole with
  | nil => exact .nil
  | plain character whole ih => exact .plain character ih
  | @veiled fill hides character rest whole ih =>
      simp only [Lexical.revealed, List.map_cons, List.map_append,
        List.map_replicate, Cell.revealed] at ih ⊢
      split
      · refine .plain ' ' ?_
        have blanks := Whole.map_plain
          (List.replicate (character.utf8Size - 1) ' ')
        rw [List.map_replicate] at blanks
        exact blanks.append ih
      · exact .veiled hides character ih

theorem Whole.isFill_of_veiled {list : List Cell} (whole : Whole list)
    {fill character : Char} (member : .veiled fill character ∈ list) :
    isFill fill = true := by
  induction whole with
  | nil => cases member
  | plain other whole ih =>
      rcases List.mem_cons.mp member with same | later
      · cases same
      · exact ih later
  | veiled hides other whole ih =>
      rcases List.mem_cons.mp member with same | later
      · cases same
        exact hides
      · rcases List.mem_append.mp later with padding | later
        · cases List.eq_of_mem_replicate padding
        · exact ih later

/-- A front that shows no quote and no literal, and hides no quote. -/
structure ClearFront (front : List Cell) : Prop where
  whole : Whole front
  shows : ∀ cell ∈ front, shown cell ≠ '\'' ∧ shown cell ≠ '_'
  hides : .veiled ' ' '\'' ∉ front

theorem ClearFront.not_mem_source {front : List Cell} (clear : ClearFront front)
    {text : Text} (source : source? front = some text) : '\'' ∉ text := by
  intro member
  rcases exists_cell_of_mem_source source member with plain | ⟨fill, hidden⟩
  · exact (clear.shows _ plain).1 rfl
  · have fills := clear.whole.isFill_of_veiled hidden
    simp only [isFill, Bool.or_eq_true, beq_iff_eq] at fills
    rcases fills with rfl | rfl
    · exact clear.hides hidden
    · exact (clear.shows _ hidden).2 rfl

theorem ClearFront.revealed {front : List Cell} (clear : ClearFront front) :
    ClearFront (revealed front) where
  whole := clear.whole.revealed
  shows := by
    intro cell member
    obtain ⟨source, known, rfl⟩ := List.mem_map.mp member
    rw [Cell.shown_revealed]
    exact clear.shows source known
  hides := by
    intro member
    obtain ⟨source, known, same⟩ := List.mem_map.mp member
    cases source with
    | plain character => cases same
    | padding fill =>
        rw [Cell.revealed] at same
        split at same <;> cases same
    | veiled fill character =>
        rw [Cell.revealed] at same
        split at same
        next => cases same
        next visible =>
          cases same
          exact visible rfl

/-- What a front without quotes and a string say from the first quote on. -/
theorem ClearFront.sourceOf_string {front : List Cell}
    (clear : ClearFront front) (region : Region) :
    ∃ text, sourceOf (front ++ region.cells) = .ok text ∧
      text.dropWhile (· != '\'') = region.text.dropWhile (· != '\'') := by
  obtain ⟨text, source, -⟩ := clear.whole.exists_source
  refine ⟨text ++ region.text, ?_, ?_⟩
  · exact sourceOf_eq_ok_iff.mpr (source?_append source (source?_region region))
  · refine List.dropWhile_append_of_pos fun character member => ?_
    refine bne_iff_ne.mpr fun quote => ?_
    subst quote
    exact clear.not_mem_source source member

theorem Lexical.revealed_literal {region : Region}
    (literal : region.kind.isComment = false) :
    revealed region.cells = region.cells := by
  have cells := region.cells_shownRegions
  rw [Region.shownRegions, if_neg (Bool.eq_false_iff.mp literal),
    Region.blanked_of_not_comment literal, List.flatMap_singleton] at cells
  exact cells.symm

/-- A comment is read as before unless a comment in its clause holds a quote. -/
theorem findComment_revealed {statement : Text} {before tail : List Cell}
    (parts : cells statement = before ++ tail)
    (leaves : Leaves (cells statement) tail)
    (visible : ∀ searched clause after,
      findFirst commentClause? [] tail = some (searched, clause, after) →
        .veiled ' ' '\'' ∉ clause) :
    findComment (revealed tail) = findComment tail := by
  rw [findComment, findComment, findFirst_commentClause?_revealed]
  cases found : findFirst commentClause? [] tail with
  | none => rfl
  | some one =>
      obtain ⟨searched, clause, after⟩ := one
      obtain ⟨earlier, element, rest, -, cut, here⟩ :=
        exists_parts_of_findFirst found
      rw [cut, ← List.append_assoc] at parts
      obtain ⟨front, region, rfl, -, string, clear⟩ :=
        exists_string_of_commentClause? parts here
      have whole := ((whole_cells statement).of_leaves leaves).of_cutsOut
        (cutsOut_of_findFirst_commentClause? found)
      have isClear : ClearFront front := {
        whole := (whole.of_append (Whole.region region).not_startsInside_self).1
        shows := clear
        hides := fun member => visible _ _ _ found
          (List.mem_append_left _ member) }
      obtain ⟨one, source, said⟩ := isClear.sourceOf_string region
      obtain ⟨other, covered, same⟩ := isClear.revealed.sourceOf_string region
      have noComment : region.kind.isComment = false := by
        rw [string]
        rfl
      have literal := revealed_literal noComment
      simp only [Option.map_some, Prod.map, revealed_append, literal, source,
        covered]
      change Except.ok (some _) = Except.ok (some _)
      rw [said, same]

end Snowform
