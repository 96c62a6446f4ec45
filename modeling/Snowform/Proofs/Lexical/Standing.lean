import Snowform.Proofs.Lexical.Cutting

/-!
# What stands alone

A stretch of a script is taken out of it and closed by a semicolon.  It is cut
into the same regions there, and the semicolon is one of code, if the stretch
starts with no dollar sign and ends visibly, and if every literal of the script
is closed.

Behind such a stretch there may be comments and blanks, also a comment that is
never closed: they are no part of the stretch.
-/

namespace Snowform

open Text Lexical

namespace Lexical

/-! ## Comments and blanks -/

/-- Without a dollar sign at its start a text is cut alike behind any other. -/
theorem lexemesFrom_of_head?_ne {text : Text}
    (noDollar : text.head? ≠ some '$') (first second : Bool) :
    lexemesFrom 0 first text = lexemesFrom 0 second text := by
  cases text with
  | nil => rfl
  | cons character rest =>
      rw [lexemesFrom, lexemesFrom, special?_eq, special?_eq,
        Mode.openedBy?_of_head?_ne noDollar first second]

/-- A text that consists of comments and blanks. -/
def IsTrivia (text : Text) : Prop :=
  ∀ region ∈ lexemes text, region.IsTrivial

instance (text : Text) : Decidable (IsTrivia text) :=
  List.decidableBAll _ _

theorem isTrivia_nil : IsTrivia [] :=
  List.forall_mem_nil _

theorem IsTrivia.blanks_append {blanks text : Text}
    (blank : ∀ character ∈ blanks, isBlank character = true)
    (trivia : IsTrivia text) : IsTrivia (blanks ++ text) := by
  intro region member
  rw [lexemes, lexemesFrom_blanks blank, List.mem_append] at member
  rcases member with code | known
  · obtain ⟨character, inside, rfl⟩ := List.mem_map.mp code
    refine .inr ⟨rfl, fun other same => ?_⟩
    rw [List.mem_singleton.mp same]
    exact blank character inside
  · exact trivia region known

theorem isTrivia_of_blanks {blanks : Text}
    (blank : ∀ character ∈ blanks, isBlank character = true) :
    IsTrivia blanks := by
  have trivia := IsTrivia.blanks_append blank isTrivia_nil
  rwa [List.append_nil] at trivia

/-- Comments and blanks of a script are comments and blanks on their own. -/
theorem isTrivia_textOf {script : Text} {kept others : List Region}
    (parts : lexemes script = kept ++ others)
    (trivial : ∀ region ∈ others, region.IsTrivial) :
    IsTrivia (textOf others) := by
  have alone := lexemesFrom_of_eq_append parts
  have noDollar : (textOf others).head? ≠ some '$' := by
    cases others with
    | nil => exact nofun
    | cons region more =>
        have here := trivial region List.mem_cons_self
        rcases mode_of_eq_cons alone with
          ⟨character, rfl⟩ | ⟨mode, inside, opens, -, rfl⟩
        · rcases here with comment | ⟨-, blank⟩
          · cases comment
          · intro same
            cases same
            exact absurd (blank '$' List.mem_cons_self) (by decide)
        · have comment := here.resolve_right
            fun code => opens.kind_ne_code code.1
          cases mode with
          | lineComment => exact nofun
          | blockComment => exact nofun
          | _ => cases comment
  rw [IsTrivia, lexemes, lexemesFrom_of_head?_ne noDollar false _, alone]
  exact trivial

/-! ## Closed literals -/

/-- A literal that another region follows is closed. -/
theorem closed_of_followed {afterName : Bool} {text : Text} {region : Region}
    {others : List Region}
    (parts : lexemesFrom 0 afterName text = region :: others)
    (goesOn : others ≠ []) (literal : region.kind.isLiteral = true) :
    ∃ (mode : Mode) (inside : Text), mode.Opens ∧
      mode.kind.isLiteral = true ∧ mode.opening <:+ mode.remainder inside ∧
      region = ⟨mode.kind, mode.opening ++ mode.remainder inside⟩ := by
  have cut : lexemesFrom 0 afterName text = [region] ++ others := parts
  rcases mode_of_eq_cons parts with
    ⟨character, rfl⟩ | ⟨mode, inside, opens, closes, rfl⟩
  · cases literal
  refine ⟨mode, inside, opens, literal, ?_, rfl⟩
  rcases Mode.remainder_closes literal closes with nothing | ⟨closed, -⟩
  · exact absurd (eq_nil_of_lexemesFrom cut nothing) goesOn
  · exact closed

/-- Every literal of a script is closed: none takes in a semicolon behind it. -/
def ClosesLiterals (script : Text) : Prop :=
  ∀ kind ∈ kindAt? (script ++ [';']) (byteSize script), kind.isLiteral = false

instance (script : Text) : Decidable (ClosesLiterals script) :=
  inferInstanceAs (Decidable (∀ kind ∈ kindAt? _ _, kind.isLiteral = false))

/-- A semicolon behind a script follows all but a comment at its end. -/
theorem ClosesLiterals.exists_behind {script : Text}
    (closes : ClosesLiterals script) {kept others : List Region}
    (parts : lexemes script = kept ++ others)
    (noComment : ∀ last ∈ kept.getLast?, last.kind.isComment = false) :
    ∃ behind, behind ≠ [] ∧ lexemes (script ++ [';']) = kept ++ behind := by
  have neutral := startsNeutral_semicolon []
  rcases settled_or_leftOpen false script with
    settled | ⟨done, mode, text, leftOpen⟩
  · refine ⟨others ++ lexemesFrom 0 (nameBehind false script) [';'], ?_, ?_⟩
    · rw [lexemesFrom_code (special?_of_isNeutral (by decide) _ _)]
      exact List.append_ne_nil_of_right_ne_nil _ (List.cons_ne_nil _ _)
    · rw [lexemes, settled _ neutral, ← lexemes, parts, List.append_assoc]
  · obtain ⟨more, followed⟩ := leftOpen.followed [';'] neutral
    have comment : mode.kind.isComment = true := by
      refine (RegionKind.isLiteral_or_isComment
        leftOpen.opens.kind_ne_code).resolve_left fun literal => ?_
      have never := closes _ leftOpen.kindAt?_semicolon
      exact absurd (never.symm.trans literal) (by decide)
    have alone := parts.symm.trans leftOpen.alone
    cases others using List.reverseRecOn with
    | nil =>
        rw [List.append_nil] at alone
        have never := noComment ⟨mode.kind, text⟩
          (by rw [alone, List.getLast?_concat]; rfl)
        exact absurd (never.symm.trans comment) (by decide)
    | append_singleton between last =>
        rw [← List.append_assoc] at alone
        obtain ⟨same, -⟩ := List.append_inj' alone rfl
        refine ⟨between ++ ⟨mode.kind, text ++ mode.remainder [';']⟩ :: more,
          List.append_ne_nil_of_right_ne_nil _ (List.cons_ne_nil _ _), ?_⟩
        rw [lexemes, followed, ← same, List.append_assoc]

theorem ClosesLiterals.not_isOpenLiteral {script : Text}
    (closes : ClosesLiterals script) {done : List Region} {region : Region}
    (parts : lexemes script = done ++ [region]) : ¬ IsOpenLiteral region := by
  rintro ⟨literal, last, isLast, blank⟩
  have noComment : region.kind.isComment = false := by
    cases kind : region.kind <;> simp_all [RegionKind.isLiteral,
      RegionKind.isComment]
  obtain ⟨behind, goesOn, followed⟩ := closes.exists_behind
    (parts.trans (List.append_nil _).symm) (by
      rw [List.getLast?_concat]
      rintro _ ⟨⟩
      exact noComment)
  rw [lexemes, List.append_assoc] at followed
  obtain ⟨mode, inside, opens, literal, closed, rfl⟩ :=
    closed_of_followed (lexemesFrom_of_eq_append followed) goesOn literal
  obtain ⟨seen, isSeen, ends⟩ := last_of_literal opens literal closed
  cases Option.mem_unique isLast isSeen
  exact absurd (ends.symm.trans (endsDelimiter_of_isBlank blank)) (by decide)

/-! ## Visible ends -/

/-- A region that shows no blank at its end is no comment. -/
theorem not_isComment_of_visible {region : Region}
    (nonempty : region.text ≠ [])
    (visible : ∀ last ∈ region.cells.getLast?, isBlank (shown last) = false) :
    region.kind.isComment = false := by
  rw [Bool.eq_false_iff]
  intro comment
  have some := Region.cells_ne_nil nonempty
  have seen := visible _ (List.getLast?_eq_some_getLast some)
  have hidden := Region.IsTrivial.isBlank_shown (.inl comment)
    (List.getLast_mem some)
  exact absurd (seen.symm.trans hidden) (by decide)

/-- The last character of a region that shows no blank at its end. -/
theorem exists_visible_last {afterName : Bool} {text : Text} {region : Region}
    {others : List Region}
    (parts : lexemesFrom 0 afterName text = region :: others)
    (goesOn : others ≠ [])
    (visible : ∀ last ∈ region.cells.getLast?, isBlank (shown last) = false)
    (whole : endsStatement region = false) :
    ∃ last ∈ region.text.getLast?, isBlank last = false ∧ last ≠ ';' := by
  by_cases literal : region.kind.isLiteral = true
  · obtain ⟨mode, inside, -, literal, ⟨hidden, closed⟩, rfl⟩ :=
      closed_of_followed parts goesOn literal
    obtain ⟨others, last, opening, ends⟩ := exists_opening_eq_concat literal
    refine ⟨last, ?_, ?_, ?_⟩
    · rw [← closed, opening, ← List.append_assoc, ← List.append_assoc]
      exact List.getLast?_concat
    · rw [Bool.eq_false_iff]
      intro blank
      rw [endsDelimiter_of_isBlank blank] at ends
      cases ends
    · rintro rfl
      cases ends
  · have nonempty := (isLexeme_of_mem_lexemesFrom afterName text region
      (by rw [parts]; exact List.mem_cons_self)).1
    rcases mode_of_eq_cons parts with
      ⟨character, rfl⟩ | ⟨mode, inside, opens, -, rfl⟩
    · refine ⟨character, rfl, visible (.plain character) rfl, ?_⟩
      rintro rfl
      cases whole
    · have comment := (RegionKind.isLiteral_or_isComment
        opens.kind_ne_code).resolve_left literal
      have never := not_isComment_of_visible nonempty visible
      exact absurd (never.symm.trans comment) (by decide)

/-- The last region of regions that show no blank at their end shows none. -/
theorem visible_of_getLast? {regions : List Region} {region : Region}
    (isLast : regions.getLast? = some region)
    (visible : ∀ last ∈ (regions.flatMap Region.cells).getLast?,
      isBlank (shown last) = false) :
    ∀ last ∈ region.cells.getLast?, isBlank (shown last) = false := by
  obtain ⟨others, rfl⟩ := List.getLast?_eq_some_iff.mp isLast
  intro last isLast
  apply visible
  rw [List.flatMap_append, List.flatMap_singleton, List.getLast?_append, isLast]
  rfl

/-! ## Stretches of a script -/

theorem not_endsStatement_of_mem_statements {script statement : Text}
    {line : Nat} (member : ⟨line, statement⟩ ∈ statements script) :
    ∀ region ∈ lexemes statement, endsStatement region = false := by
  rw [← map_toStatement_placedStatements] at member
  obtain ⟨placed, known, same⟩ := List.mem_map.mp member
  obtain ⟨before, body, after, frames⟩ := exists_frames known
  have text : placed.text = statement := congrArg Statement.text same
  rw [← text]
  exact frames.goesOn.forall_not_endsStatement frames.whole

theorem IsClosed.of_blanks_append {blanks text : Text}
    (blank : ∀ character ∈ blanks, isBlank character = true)
    (closed : IsClosed (blanks ++ text)) : IsClosed text := by
  have parts := closed.lexemes_append []
  rw [List.append_assoc, lexemes, lexemesFrom_blanks blank, lexemes,
    lexemesFrom_blanks blank, List.append_assoc] at parts
  exact isClosed_of_lexemes (List.append_cancel_left parts)

section

variable {script : Text} {front kept behind : List Region}
  (parts : lexemes script = front ++ (kept ++ behind)) (goesOn : behind ≠ [])
  (noDollar : (textOf kept).head? ≠ some '$')

include parts goesOn noDollar

/-- A stretch without a comment at its end is cut alone as in the script. -/
theorem exists_lexemes_textOf_append
    (noComment : ∀ last ∈ kept.getLast?, last.kind.isComment = false)
    {rest : Text} (neutral : StartsNeutral rest) :
    ∃ afterName, lexemes (textOf kept ++ rest) =
      kept ++ lexemesFrom 0 afterName rest := by
  have again := lexemesFrom_exchange (lexemesFrom_of_eq_append parts) goesOn
    noComment neutral
  have starts : (textOf kept ++ rest).head? ≠ some '$' := by
    cases whole : textOf kept with
    | nil => exact neutral.head_ne (by decide)
    | cons first others =>
        rw [whole] at noDollar
        exact noDollar
  exact ⟨_, (lexemesFrom_of_head?_ne starts false _).trans again⟩

variable (visible : ∀ last ∈ (kept.flatMap Region.cells).getLast?,
    isBlank (shown last) = false)
  (whole : ∀ region ∈ kept, endsStatement region = false)

include visible whole

/-- A stretch that ends visibly is closed, and what it ends in is seen. -/
theorem ends_visibly (nonempty : kept ≠ []) :
    lexemes (textOf kept) = kept ∧ IsClosed (textOf kept) ∧
      ∃ last ∈ (textOf kept).getLast?, isBlank last = false ∧ last ≠ ';' := by
  obtain ⟨others, region, rfl⟩ :=
    (List.eq_nil_or_concat' kept).resolve_left nonempty
  have member : region ∈ lexemes script := by
    rw [parts]
    simp
  have real : region.text ≠ [] := (isLexeme_of_mem_lexemes member).1
  have visible := visible_of_getLast? List.getLast?_concat visible
  have noComment : ∀ last ∈ (others ++ [region]).getLast?,
      last.kind.isComment = false := by
    rw [List.getLast?_concat]
    rintro _ ⟨⟩
    exact not_isComment_of_visible real visible
  obtain ⟨_, alone⟩ := exists_lexemes_textOf_append parts goesOn noDollar
    noComment startsNeutral_nil
  obtain ⟨_, followed⟩ := exists_lexemes_textOf_append parts goesOn noDollar
    noComment (startsNeutral_semicolon [])
  rw [List.append_nil] at alone
  replace alone := alone.trans (List.append_nil _)
  rw [lexemesFrom_code (special?_of_isNeutral (by decide) _ _)] at followed
  have cut : lexemes script = (front ++ others) ++ region :: behind := by
    rw [parts]
    simp
  obtain ⟨last, isLast, seen⟩ := exists_visible_last
    (lexemesFrom_of_eq_append cut) goesOn visible
    (whole region (List.mem_append_right _ List.mem_cons_self))
  refine ⟨alone, ?_, last, ?_, seen⟩
  · apply isClosed_of_lexemes
    rw [alone]
    exact followed
  · rw [textOf_append, textOf_cons, textOf_nil, List.append_nil,
      List.getLast?_append, isLast]
    rfl

/--
A stretch without semicolons of code that ends visibly is a single statement,
also with a semicolon behind it.
-/
theorem stands_alone (nonempty : kept ≠ []) :
    (trim (textOf kept)).getLast? ≠ some ';' ∧
      IsClosed (trim (textOf kept)) ∧
      statements (trim (textOf kept) ++ [';']) =
        [⟨1, trim (textOf kept)⟩] := by
  obtain ⟨alone, closed, last, isLast, visible, other⟩ :=
    ends_visibly parts goesOn noDollar visible whole nonempty
  generalize written : textOf kept = text at *
  have blank : ∀ character ∈ leadingBlanks text, isBlank character = true :=
    fun character => isBlank_of_mem_leadingBlanks
  obtain ⟨cut, query_ne_nil⟩ := leading_trim_of_visible isLast visible
  rw [← cut] at closed alone isLast
  have closed := closed.of_blanks_append blank
  rw [List.getLast?_append_of_ne_nil _ query_ne_nil] at isLast
  rw [lexemes, lexemesFrom_blanks blank] at alone
  refine ⟨fun same => ?_, closed, ?_⟩
  · exact other (Option.mem_unique isLast same)
  · have single := statements_of_whole query_ne_nil (trim_trim text)
      fun region member => whole region (by
        rw [← alone]
        exact List.mem_append_right _ member)
    rw [closed.statements_append [], single]
    rfl

end

end Lexical

end Snowform
