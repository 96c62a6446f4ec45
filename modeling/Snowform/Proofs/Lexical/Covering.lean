import Snowform.Proofs.Lexical.Veiling

/-!
# Scanning with comments covered

Scanning a script in which comments are covered by blanks, or left out,
finds the literals of the script again and code everywhere else.  This holds
whether the literals are shown as they are or hidden between their
delimiters, as long as each of them is found again where it was.

Blanks in the place of a comment neither open nor close anything, and the
only thing that they could change is whether a dollar sign behind them
continues a name.  What a character of code could open with the characters
behind it, it cannot open with a blank in their place.  Only a line comment
may leave nothing at all: the line feed behind it parts what is in front of
it from what follows.
-/

namespace Snowform

open Text Lexical

/-! ## Ways to show regions -/

/-- A literal of a mode in front of a rest is found again where it was. -/
structure Mode.FoundAgain (mode : Mode) (shown whole rest : Text) : Prop where
  starts : mode.opening <+: shown
  again : ∀ {afterName : Bool} {text behind : Text},
    openedBy? afterName text = some mode →
    (mode.MayFollow rest → mode.MayFollow behind) →
    (rest = [] → behind = []) →
      Lexical.special? afterName (shown ++ behind) = some ⟨mode.kind, shown⟩
  behind : ∀ before after : Bool,
    nameBehind before shown = nameBehind after whole ∨ rest = []

/-- A way to show regions that covers the comments of a script. -/
structure Covers (seen : Region → Text) : Prop where
  code (text : Text) : seen ⟨.code, text⟩ = text
  comment {region : Region} (isComment : region.kind.isComment = true) :
    seen region = covered ' ' region.text
  literal {mode : Mode} (opens : mode.Opens)
    (isLiteral : mode.kind.isLiteral = true) {text rest : Text}
    (parts : mode.remainder text ++ rest = text) :
    mode.FoundAgain
      (seen ⟨mode.kind, mode.opening ++ mode.remainder text⟩)
      (mode.opening ++ mode.remainder text) rest

/-- A way to show regions that puts blanks in the place of comments. -/
structure Clears (seen : Region → Text) : Prop where
  code (text : Text) : seen ⟨.code, text⟩ = text
  blank {region : Region} (isComment : region.kind.isComment = true) :
    ∀ character ∈ seen region, isBlank character = true
  lineComment {region : Region} (isComment : region.kind.isComment = true)
    (nonempty : region.text ≠ []) (gone : seen region = []) :
    region.kind = .lineComment
  literal {mode : Mode} (opens : mode.Opens)
    (isLiteral : mode.kind.isLiteral = true) {text rest : Text}
    (parts : mode.remainder text ++ rest = text) :
    mode.FoundAgain
      (seen ⟨mode.kind, mode.opening ++ mode.remainder text⟩)
      (mode.opening ++ mode.remainder text) rest

/-- Covering every byte of a comment puts blanks in its place. -/
theorem Covers.clears {seen : Region → Text} (covers : Covers seen) :
    Clears seen where
  code := covers.code
  blank isComment character member := by
    rw [covers.comment isComment] at member
    exact isBlank_of_mem_covered_blank member
  lineComment isComment nonempty gone := by
    rw [covers.comment isComment] at gone
    exact absurd gone (covered_ne_nil nonempty)
  literal := covers.literal

/-- What a region is cut into when it is shown. -/
def Region.shownRegions (seen : Region → Text) (region : Region) :
    List Region :=
  if region.kind.isComment then
    codeRegions (seen region)
  else
    [⟨region.kind, seen region⟩]

/-! ## Scanning again -/

namespace Mode

/-- What follows a line comment starts with its line feed. -/
theorem head?_behind_lineComment {text rest : Text}
    (parts : remainder .lineComment text ++ rest = text) :
    ∀ first ∈ rest.head?, first = '\n' := by
  have whole := List.takeWhile_append_dropWhile
    (p := (· != '\n')) (l := text)
  have dropped : rest = text.dropWhile (· != '\n') :=
    List.append_cancel_left (parts.trans whole.symm)
  rw [dropped]
  intro first starts
  have stops := List.head?_dropWhile_not (· != '\n') text
  rw [Option.mem_def.mp starts] at stops
  simpa using stops

theorem startsNeutral_behind_lineComment {text rest : Text}
    (parts : remainder .lineComment text ++ rest = text) :
    StartsNeutral rest := by
  intro first starts
  rw [head?_behind_lineComment parts first starts]
  decide

/-- What follows a comment opens the same whatever the comment showed. -/
theorem nameBehind_comment {mode : Mode}
    (comment : mode.kind.isComment = true) {text rest : Text}
    (parts : mode.remainder text ++ rest = text) (afterName : Bool) :
    nameBehind afterName (mode.opening ++ mode.remainder text) = false ∨
      rest.head? ≠ some '$' := by
  cases mode with
  | lineComment =>
      exact Or.inr
        ((startsNeutral_behind_lineComment parts).head_ne (by decide))
  | blockComment =>
      rcases upThrough_closes _ parts with rfl | ⟨before, ends⟩
      · exact Or.inr (by simp)
      · refine Or.inl ?_
        rw [remainder, ← ends]
        simp only [nameBehind_append]
        rfl
  | _ => cases comment

/-- What opens a mode starts with no character of a tag. -/
theorem Opens.exists_opening_eq_cons {mode : Mode} (opens : mode.Opens) :
    ∃ first others, mode.opening = first :: others ∧
      isTagCharacter first = false ∧
      (mode.kind.isComment = true → first ≠ '$') := by
  cases mode with
  | code => exact opens.elim
  | singleQuote => exact ⟨'\'', [], rfl, by decide, by decide⟩
  | doubleQuote => exact ⟨'"', [], rfl, by decide, by decide⟩
  | lineComment => exact ⟨'-', ['-'], rfl, by decide, by decide⟩
  | blockComment => exact ⟨'/', ['*'], rfl, by decide, by decide⟩
  | dollarQuote tag =>
      refine ⟨'$', tag ++ ['$'], rfl, by decide, ?_⟩
      intro comment
      cases comment

theorem openedBy?_of_head?_ne {text : Text} (noDollar : text.head? ≠ some '$')
    (first second : Bool) :
    openedBy? first text = openedBy? second text := by
  cases text with
  | nil => rfl
  | cons character rest =>
      have other : character ≠ '$' := by simpa using noDollar
      rw [openedBy?_cons other, openedBy?_cons other]

theorem tag?_cons_of_not_tag {character : Char}
    (noTag : isTagCharacter character = false) (rest : Text) :
    tag? (character :: rest) = if character = '$' then some [] else none := by
  simp [tag?, noTag]

theorem tag?_of_startsNeutral {text : Text} (neutral : StartsNeutral text) :
    tag? text = none :=
  tag?_append neutral []

end Mode

/-- What is seen of regions that follow each other. -/
def Lexical.seenText (seen : Region → Text) (regions : List Region) : Text :=
  regions.flatMap seen

namespace Lexical

variable {seen : Region → Text}

theorem seenText_cons (region : Region) (others : List Region) :
    seenText seen (region :: others) =
      seen region ++ seenText seen others :=
  List.flatMap_cons

variable (clears : Clears seen)

include clears

/-- A shown literal starts as the literal did, with no character of a tag. -/
theorem head?_seen_of_literal {afterName : Bool} {region : Region}
    {rest : Text} (literal : region.kind.isLiteral = true)
    (found : special? afterName (region.text ++ rest) = some region) :
    ∃ first, region.text.head? = some first ∧
      isTagCharacter first = false ∧ (seen region).head? = some first := by
  obtain ⟨mode, text, -, opens, parts, equal⟩ := special?_append_eq_some found
  obtain ⟨first, others, opening, noTag, -⟩ := opens.exists_opening_eq_cons
  rw [equal] at literal ⊢
  obtain ⟨behind, starts⟩ := (clears.literal opens literal parts).starts
  refine ⟨first, ?_, noTag, ?_⟩
  · rw [opening]
    rfl
  · rw [← starts, opening]
    rfl

/-- Where a comment leaves nothing, its line feed stands behind it. -/
theorem startsNeutral_behind_gone {afterName : Bool} {region : Region}
    {rest : Text} (comment : region.kind.isComment = true)
    (found : special? afterName (region.text ++ rest) = some region)
    (gone : seen region = []) : StartsNeutral rest := by
  have line := clears.lineComment comment (special?_spec found).2.1 gone
  obtain ⟨mode, text, -, opens, parts, equal⟩ := special?_append_eq_some found
  rw [equal] at line
  cases mode with
  | lineComment => exact Mode.startsNeutral_behind_lineComment parts
  | _ => cases line

/-- In the place of a comment a neutral character starts what is seen. -/
theorem startsNeutral_seen_append {afterName : Bool} {region : Region}
    {rest : Text} (comment : region.kind.isComment = true)
    (found : special? afterName (region.text ++ rest) = some region)
    {behind : Text} (follows : StartsNeutral rest → StartsNeutral behind) :
    StartsNeutral (seen region ++ behind) := by
  cases shown : seen region with
  | nil => exact follows (startsNeutral_behind_gone clears comment found shown)
  | cons blank others =>
      refine StartsNeutral.of_cons (isNeutral_of_isBlank ?_) _
      apply clears.blank comment
      rw [shown]
      exact List.mem_cons_self

/-- A shown text starts as the text does, or with a neutral character. -/
theorem head?_seenText {afterName : Bool} {text : Text} {first : Char}
    (starts : (seenText seen (lexemesFrom 0 afterName text)).head? =
      some first) : isNeutral first = true ∨ text.head? = some first := by
  induction afterName, text using lexemeInduction generalizing first with
  | nil afterName => cases starts
  | special afterName region rest found ih =>
      rw [lexemesFrom_special found, seenText_cons] at starts
      rcases RegionKind.isLiteral_or_isComment (special?_spec found).2.2 with
        literal | comment
      · obtain ⟨character, start, -, again⟩ :=
          head?_seen_of_literal clears literal found
        rw [List.head?_append, again] at starts
        cases starts
        rw [List.head?_append, start]
        exact Or.inr rfl
      · refine Or.inl ?_
        have neutral := startsNeutral_seen_append clears comment found
          (fun neutral shown starts => (ih starts).elim id (neutral shown))
        exact neutral first starts
  | code afterName character rest absent ih =>
      rw [lexemesFrom_code absent, seenText_cons, clears.code] at starts
      exact Or.inr starts

theorem head?_seenText_ne {afterName : Bool} {text : Text} {loud : Char}
    (noNeutral : isNeutral loud = false) (other : text.head? ≠ some loud) :
    (seenText seen (lexemesFrom 0 afterName text)).head? ≠ some loud := by
  intro starts
  rcases head?_seenText clears starts with neutral | same
  · rw [noNeutral] at neutral
    cases neutral
  · exact other same

theorem startsNeutral_seenText (afterName : Bool) {text : Text}
    (neutral : StartsNeutral text) :
    StartsNeutral (seenText seen (lexemesFrom 0 afterName text)) := by
  intro first starts
  exact (head?_seenText clears starts).elim id (neutral first)

/-- Clearing the comments of a text changes no tag that it starts with. -/
theorem tag?_seenText (afterName : Bool) (text : Text) :
    Mode.tag? (seenText seen (lexemesFrom 0 afterName text)) =
      Mode.tag? text := by
  induction afterName, text using lexemeInduction with
  | nil afterName => rfl
  | special afterName region rest found ih =>
      -- No tag goes on over the first character of a literal or a comment.
      rcases RegionKind.isLiteral_or_isComment (special?_spec found).2.2 with
        literal | comment
      · obtain ⟨first, start, noTag, again⟩ :=
          head?_seen_of_literal clears literal found
        obtain ⟨others, text⟩ := List.head?_eq_some_iff.mp start
        obtain ⟨behind, parts⟩ := List.head?_eq_some_iff.mp again
        rw [lexemesFrom_special found, seenText_cons, parts, text,
          List.cons_append, List.cons_append, Mode.tag?_cons_of_not_tag noTag,
          Mode.tag?_cons_of_not_tag noTag]
      · obtain ⟨mode, text, -, opens, parts, equal⟩ :=
          special?_append_eq_some found
        obtain ⟨first, others, opening, noTag, noDollar⟩ :=
          opens.exists_opening_eq_cons
        have quiet := startsNeutral_seen_append clears comment found
          (startsNeutral_seenText clears (nameBehind afterName region.text))
        rw [lexemesFrom_special found, seenText_cons,
          Mode.tag?_of_startsNeutral quiet, equal, opening, List.cons_append,
          List.cons_append, Mode.tag?_cons_of_not_tag noTag]
        rw [equal] at comment
        exact (if_neg (noDollar comment)).symm
  | code afterName character rest absent ih =>
      rw [lexemesFrom_code absent, seenText_cons, clears.code,
        List.singleton_append, Mode.tag?, Mode.tag?, ih]

end Lexical

theorem Mode.MayFollow.seenText {seen : Region → Text} (clears : Clears seen)
    {mode : Mode} {rest : Text} (follows : mode.MayFollow rest)
    (afterName : Bool) :
    mode.MayFollow (Lexical.seenText seen (lexemesFrom 0 afterName rest)) := by
  cases mode with
  | singleQuote => exact head?_seenText_ne clears (by decide) follows
  | doubleQuote => exact head?_seenText_ne clears (by decide) follows
  | _ => trivial

namespace Lexical

variable {seen : Region → Text}

/-- A character of code is code in the shown text. -/
theorem special?_seenText (clears : Clears seen) {afterName before : Bool}
    {character : Char} {rest : Text}
    (absent : special? afterName (character :: rest) = none)
    (same : before = afterName ∨ character ≠ '$') (behind : Bool) :
    special? before
      (character :: seenText seen (lexemesFrom 0 behind rest)) = none := by
  rw [special?_eq, Option.map_eq_none_iff] at absent ⊢
  by_cases dollar : character = '$'
  · subst dollar
    have equal : before = afterName := same.resolve_right (by simp)
    subst equal
    rw [Mode.openedBy?, tag?_seenText clears]
    exact absent
  · rw [Mode.openedBy?_cons dollar] at absent ⊢
    have noDash : rest.head? ≠ some '-' →
        (seenText seen (lexemesFrom 0 behind rest)).head? ≠ some '-' :=
      head?_seenText_ne clears (by decide)
    have noStar : rest.head? ≠ some '*' →
        (seenText seen (lexemesFrom 0 behind rest)).head? ≠ some '*' :=
      head?_seenText_ne clears (by decide)
    grind

/-- What follows blanks stands alone, whatever stands in front of them. -/
theorem lexemesFrom_blanks_behind {blanks : Text} (nonempty : blanks ≠ [])
    (blank : ∀ character ∈ blanks, isBlank character = true)
    (before : Bool) (rest : Text) :
    lexemesFrom 0 before (blanks ++ rest) =
      codeRegions blanks ++ lexemesFrom 0 false rest := by
  obtain ⟨first, others, rfl⟩ := List.exists_cons_of_ne_nil nonempty
  rw [List.forall_mem_cons] at blank
  have neutral := isNeutral_of_isBlank blank.1
  rw [List.cons_append,
    lexemesFrom_code (special?_of_isNeutral neutral before _),
    continuesName_of_isNeutral neutral, lexemesFrom_blanks blank.2]
  rfl

section

variable (clears : Clears seen) {afterName before : Bool} {region : Region}
  {rest : Text} {others : List Region}
  (found : special? afterName (region.text ++ rest) = some region)
  (again : ∀ {behind : Bool},
    (behind = nameBehind afterName region.text ∨ rest.head? ≠ some '$') →
      lexemesFrom 0 behind (seenText seen
        (lexemesFrom 0 (nameBehind afterName region.text) rest)) = others)

include clears found again

/-- In a shown text a literal is cut off as the literal that is seen. -/
theorem lexemesFrom_seen_literal (literal : region.kind.isLiteral = true)
    (same : before = afterName ∨ (region.text ++ rest).head? ≠ some '$') :
    lexemesFrom 0 before (seen region ++ seenText seen
        (lexemesFrom 0 (nameBehind afterName region.text) rest)) =
      region.shownRegions seen ++ others := by
  obtain ⟨mode, inside, opened, opens, parts, equal⟩ :=
    special?_append_eq_some found
  have kind : region.kind = mode.kind := by rw [equal]
  have written : mode.opening ++ mode.remainder inside = region.text := by
    rw [equal]
  have foundAgain := clears.literal opens (by rw [← kind, literal]) parts
  rw [← equal, written] at foundAgain
  have opensToo : Mode.openedBy? before (region.text ++ rest) =
      some mode := by
    rcases same with rfl | noDollar
    · exact opened
    · rw [← opened]
      exact Mode.openedBy?_of_head?_ne noDollar before afterName
  have foundToo : special? before (seen region ++ seenText seen
      (lexemesFrom 0 (nameBehind afterName region.text) rest)) =
        some ⟨region.kind, seen region⟩ := by
    rw [foundAgain.again opensToo
      (fun follows => Mode.MayFollow.seenText clears follows _)
      (fun nothing => by rw [nothing]; rfl), kind]
  have noComment : ¬ region.kind.isComment = true := by
    rw [RegionKind.isComment_of_isLiteral literal]
    exact Bool.false_ne_true
  have goesOn : nameBehind before (seen region) =
      nameBehind afterName region.text ∨ rest.head? ≠ some '$' := by
    refine (foundAgain.behind before afterName).imp_right ?_
    rintro rfl
    simp
  rw [Region.shownRegions, if_neg noComment, ← again goesOn]
  exact @lexemesFrom_special before ⟨region.kind, seen region⟩ _ foundToo

/-- In a shown text the blanks of a comment are cut off as code. -/
theorem lexemesFrom_seen_comment (comment : region.kind.isComment = true)
    (before : Bool) :
    lexemesFrom 0 before (seen region ++ seenText seen
        (lexemesFrom 0 (nameBehind afterName region.text) rest)) =
      region.shownRegions seen ++ others := by
  rw [Region.shownRegions, if_pos comment]
  by_cases gone : seen region = []
  · have noDollar : rest.head? ≠ some '$' :=
      (startsNeutral_behind_gone clears comment found gone).head_ne (by decide)
    rw [gone, List.nil_append, again (Or.inr noDollar)]
    rfl
  · obtain ⟨mode, text, -, -, parts, equal⟩ := special?_append_eq_some found
    have isComment : mode.kind.isComment = true := by
      rw [equal] at comment
      exact comment
    have goesOn : false = nameBehind afterName region.text ∨
        rest.head? ≠ some '$' := by
      rw [equal]
      exact (Mode.nameBehind_comment isComment parts afterName).imp_left
        Eq.symm
    rw [lexemesFrom_blanks_behind gone (clears.blank comment) before,
      again goesOn]

end

/--
A shown text is cut into its shown regions.  It may stand behind another
character than the text itself, unless a dollar sign asks for that.
-/
theorem lexemesFrom_seenText (clears : Clears seen) (afterName : Bool)
    (text : Text) {before : Bool}
    (same : before = afterName ∨ text.head? ≠ some '$') :
    lexemesFrom 0 before (seenText seen (lexemesFrom 0 afterName text)) =
      (lexemesFrom 0 afterName text).flatMap (Region.shownRegions seen) := by
  induction afterName, text using lexemeInduction generalizing before with
  | nil afterName => rfl
  | special afterName region rest found ih =>
      rw [lexemesFrom_special found, seenText_cons, List.flatMap_cons]
      rcases RegionKind.isLiteral_or_isComment (special?_spec found).2.2 with
        literal | comment
      · exact lexemesFrom_seen_literal clears found ih literal same
      · exact lexemesFrom_seen_comment clears found ih comment before
  | code afterName character rest absent ih =>
      have sameHere : before = afterName ∨ character ≠ '$' := by
        simpa using same
      rw [lexemesFrom_code absent, seenText_cons, clears.code,
        List.singleton_append,
        lexemesFrom_code (special?_seenText clears absent sameHere _),
        ih (Or.inl rfl)]
      simp [Region.shownRegions, RegionKind.isComment, clears.code]

end Lexical

end Snowform
