import Snowform.Proofs.Lexical.Blanking

/-!
# Scripts without comments, scanned again

Removing the comments of a script parts what stood around them: a block
comment leaves a blank, and a line comment leaves its line feed.  So scanning
what is left finds the code and the literals of the script again and nothing
else, and removing comments a second time changes nothing.  The same holds
when strings are emptied as well, since an emptied string is closed.
-/

namespace Snowform

open Text Lexical

namespace Region

/-- What a region leaves when comments are removed, as it is found again. -/
def leftover (region : Region) : List Region :=
  match region.kind with
  | .lineComment => []
  | .blockComment => [⟨.code, [' ']⟩]
  | _ => [region]

/-- A string with nothing inside it, and any other region as it is. -/
def emptied (region : Region) : Region :=
  match region.kind with
  | .singleQuote => ⟨.singleQuote, ['\'', '\'']⟩
  | _ => region

theorem kind_emptied (region : Region) : region.emptied.kind = region.kind := by
  obtain ⟨kind, text⟩ := region
  cases kind <;> rfl

/-- No comment is left. -/
theorem isComment_of_mem_leftover {region found : Region}
    (member : found ∈ region.leftover) : found.kind.isComment = false := by
  obtain ⟨kind, text⟩ := region
  cases kind with
  | lineComment => cases member
  | _ =>
      rw [List.mem_singleton.mp member]
      rfl

/-- Every literal is left. -/
theorem filter_leftover (region : Region) :
    region.leftover.filter (fun found => found.kind.isLiteral) =
      [region].filter fun found => found.kind.isLiteral := by
  obtain ⟨kind, text⟩ := region
  cases kind <;> rfl

/-- What is left has no more comments to remove. -/
theorem flatMap_withoutComment_leftover (region : Region) :
    region.leftover.flatMap withoutComment = region.withoutComment := by
  obtain ⟨kind, text⟩ := region
  cases kind with
  | lineComment => rfl
  | blockComment => rfl
  | _ => exact List.flatMap_singleton ..

/-- Strings are emptied the same before and after comments are removed. -/
theorem flatMap_withoutString_leftover (region : Region) :
    region.leftover.flatMap withoutString = region.withoutString := by
  obtain ⟨kind, text⟩ := region
  cases kind with
  | lineComment => rfl
  | blockComment => rfl
  | _ => exact List.flatMap_singleton ..

/-- What a region shows without comments is what it leaves. -/
theorem shownRegions_withoutComment (region : Region) :
    region.shownRegions withoutComment = region.leftover := by
  obtain ⟨kind, text⟩ := region
  cases kind <;> rfl

/--
What a region shows without comments and strings is what it leaves when it is
emptied.
-/
theorem shownRegions_withoutString (region : Region) :
    region.shownRegions withoutString = region.emptied.leftover := by
  obtain ⟨kind, text⟩ := region
  cases kind <;> rfl

/-- A literal is kept as it is when comments are removed. -/
theorem withoutComment_of_isLiteral {region : Region}
    (literal : region.kind.isLiteral = true) :
    region.withoutComment = region.text := by
  obtain ⟨kind, text⟩ := region
  cases kind with
  | lineComment => cases literal
  | blockComment => cases literal
  | _ => rfl

/-- What comments leave is blank. -/
theorem isBlank_of_mem_withoutComment {region : Region}
    (comment : region.kind.isComment = true) :
    ∀ character ∈ region.withoutComment, isBlank character = true := by
  obtain ⟨kind, text⟩ := region
  cases kind with
  | lineComment =>
      intro character member
      cases member
  | blockComment =>
      intro character member
      rw [List.mem_singleton.mp member]
      decide
  | _ => cases comment

theorem kind_of_withoutComment_eq_nil {region : Region}
    (comment : region.kind.isComment = true)
    (gone : region.withoutComment = []) : region.kind = .lineComment := by
  obtain ⟨kind, text⟩ := region
  cases kind with
  | lineComment => rfl
  | blockComment => cases gone
  | _ => cases comment

theorem withoutString_of_isComment {region : Region}
    (comment : region.kind.isComment = true) :
    region.withoutString = region.withoutComment := by
  obtain ⟨kind, text⟩ := region
  cases kind with
  | singleQuote => cases comment
  | _ => rfl

end Region

/-! ## Literals are found again -/

/-- Removing comments puts blanks in their place and keeps the rest apart. -/
theorem clears_withoutComment : Clears Region.withoutComment where
  code _ := rfl
  blank := Region.isBlank_of_mem_withoutComment
  lineComment comment _ gone :=
    Region.kind_of_withoutComment_eq_nil comment gone
  literal {mode} opens literal text rest parts := by
    rw [Region.withoutComment_of_isLiteral literal]
    exact Mode.foundAgain_self opens literal parts

/-- An emptied string is found again if nothing doubles its last quote. -/
theorem Mode.foundAgain_emptied {text rest : Text}
    (parts : remainder .singleQuote text ++ rest = text) :
    FoundAgain .singleQuote ['\'', '\'']
      ('\'' :: remainder .singleQuote text) rest where
  starts := ⟨['\''], rfl⟩
  again := by
    intro afterName other behind _ keeps ends
    have single : behind.head? ≠ some '\'' := by
      rcases quotedRest_closes '\'' parts with rfl | ⟨-, follows⟩
      · rw [ends rfl]
        exact nofun
      · exact keeps follows
    have closed := quotedRest_closed single
    change some (⟨.singleQuote, '\'' :: quotedRest '\'' ('\'' :: behind)⟩ :
      Region) = _
    rw [closed]
    rfl
  behind := by
    intro before after
    rcases quotedRest_closes '\'' parts with
      rfl | ⟨⟨inside, ends⟩, -⟩
    · exact Or.inr rfl
    · refine Or.inl ?_
      rw [remainder, ← ends]
      simp only [nameBehind_cons, nameBehind_append]

/-- Removing comments and emptying strings keeps the rest apart. -/
theorem clears_withoutString : Clears Region.withoutString where
  code _ := rfl
  blank comment := by
    rw [Region.withoutString_of_isComment comment]
    exact Region.isBlank_of_mem_withoutComment comment
  lineComment comment _ gone := by
    rw [Region.withoutString_of_isComment comment] at gone
    exact Region.kind_of_withoutComment_eq_nil comment gone
  literal {mode} opens literal text rest parts := by
    cases mode with
    | singleQuote => exact Mode.foundAgain_emptied parts
    | code => cases literal
    | lineComment => cases literal
    | blockComment => cases literal
    | doubleQuote => exact Mode.foundAgain_self opens literal parts
    | dollarQuote tag => exact Mode.foundAgain_self opens literal parts

namespace Lexical

/-- What is left of a script is cut into what is left of its regions. -/
theorem lexemes_stripComments (script : Text) :
    lexemes (stripComments script) =
      (lexemes script).flatMap Region.leftover := by
  rw [← funext Region.shownRegions_withoutComment]
  exact lexemesFrom_seenText clears_withoutComment false script (Or.inl rfl)

/-- A stripped script is cut into what the emptied regions leave. -/
theorem lexemes_stripCommentsAndStrings (script : Text) :
    lexemes (stripCommentsAndStrings script) =
      ((lexemes script).map Region.emptied).flatMap Region.leftover := by
  rw [List.flatMap_map, ← funext Region.shownRegions_withoutString]
  exact lexemesFrom_seenText clears_withoutString false script (Or.inl rfl)

/-! ## Literals of a script -/

/-- The strings, quoted identifiers and dollar bodies of a script. -/
def literals (script : Text) : List Region :=
  (scan script).filter fun region => region.kind.isLiteral

/-- Joining code keeps the literals. -/
theorem filter_foldr_joinCode (regions : List Region) :
    (regions.foldr joinCode []).filter (fun region => region.kind.isLiteral) =
      regions.filter fun region => region.kind.isLiteral := by
  induction regions with
  | nil => rfl
  | cons region others ih =>
      rw [List.foldr_cons, List.filter_cons, ← ih]
      cases others.foldr joinCode [] with
      | nil => rw [joinCode, List.filter_cons]
      | cons next rest =>
          rw [joinCode]
          split
          next codes => simp [codes.1, codes.2, RegionKind.isLiteral]
          next => rw [List.filter_cons]

/-- The literals of a script can be told from its smallest regions. -/
theorem literals_eq (script : Text) :
    literals script =
      (lexemes script).filter fun region => region.kind.isLiteral :=
  filter_foldr_joinCode (lexemes script)

/-- Removing comments keeps the literals. -/
theorem filter_flatMap_leftover (regions : List Region) :
    (regions.flatMap Region.leftover).filter
        (fun region => region.kind.isLiteral) =
      regions.filter fun region => region.kind.isLiteral := by
  induction regions with
  | nil => rfl
  | cons region others ih =>
      rw [List.flatMap_cons, List.filter_append, ih, Region.filter_leftover,
        ← List.filter_append]
      rfl

/-- A script without its comments has the literals of the script. -/
theorem literals_stripComments (script : Text) :
    literals (stripComments script) = literals script := by
  rw [literals_eq, literals_eq, lexemes_stripComments, filter_flatMap_leftover]

/--
A script without comments and strings has its literals, the strings of them
empty.
-/
theorem literals_stripCommentsAndStrings (script : Text) :
    literals (stripCommentsAndStrings script) =
      (literals script).map Region.emptied := by
  rw [literals_eq, literals_eq, lexemes_stripCommentsAndStrings,
    filter_flatMap_leftover, List.filter_map]
  congr 1
  apply List.filter_congr
  intro region _
  exact congrArg RegionKind.isLiteral region.kind_emptied

/-- A script that is cut into what regions leave has no comments. -/
theorem isComment_of_mem_scan {script : Text} {regions : List Region}
    (left : lexemes script = regions.flatMap Region.leftover) :
    ∀ region ∈ scan script, region.kind.isComment = false := by
  intro region member
  rcases mem_or_code_of_mem_foldr_joinCode member with known | code
  · rw [left] at known
    obtain ⟨source, -, known⟩ := List.mem_flatMap.mp known
    exact Region.isComment_of_mem_leftover known
  · rw [code]
    rfl

/-! ## Removing comments again -/

/-- Removing comments again changes nothing. -/
theorem stripComments_stripComments (script : Text) :
    stripComments (stripComments script) = stripComments script := by
  rw [stripComments, lexemes_stripComments, List.flatMap_assoc,
    funext Region.flatMap_withoutComment_leftover]
  rfl

/-- Comments may be removed before strings are emptied. -/
theorem stripCommentsAndStrings_stripComments (script : Text) :
    stripCommentsAndStrings (stripComments script) =
      stripCommentsAndStrings script := by
  rw [stripCommentsAndStrings, lexemes_stripComments, List.flatMap_assoc,
    funext Region.flatMap_withoutString_leftover]
  rfl

/--
Removing comments leaves the code and the literals of a script, each in its
order and with its text, and what is left is scanned as just these: no two
pieces of code around a comment become a comment or a literal.  With strings
emptied as well, the same is left but for the insides of the strings.
-/
theorem stripped_scripts_scanned_again (script : Text) :
    (lexemes (stripComments script) =
        (lexemes script).flatMap Region.leftover ∧
      (∀ region ∈ scan (stripComments script),
        region.kind.isComment = false) ∧
      literals (stripComments script) = literals script ∧
      stripComments (stripComments script) = stripComments script) ∧
    (stripCommentsAndStrings (stripComments script) =
        stripCommentsAndStrings script ∧
      lexemes (stripCommentsAndStrings script) =
        ((lexemes script).map Region.emptied).flatMap Region.leftover ∧
      (∀ region ∈ scan (stripCommentsAndStrings script),
        region.kind.isComment = false) ∧
      literals (stripCommentsAndStrings script) =
        (literals script).map Region.emptied) := by
  refine ⟨⟨lexemes_stripComments script, ?_, literals_stripComments script,
      stripComments_stripComments script⟩,
    ⟨stripCommentsAndStrings_stripComments script,
      lexemes_stripCommentsAndStrings script, ?_,
      literals_stripCommentsAndStrings script⟩⟩
  · exact isComment_of_mem_scan (lexemes_stripComments script)
  · exact isComment_of_mem_scan (lexemes_stripCommentsAndStrings script)

/-- Two dashes around a comment do not open another one. -/
example : scan (stripComments "-/*'*/-'--'--'") =
    [⟨.code, "- -"⟩, ⟨.singleQuote, "'--'"⟩] := by
  decide

end Lexical

end Snowform
