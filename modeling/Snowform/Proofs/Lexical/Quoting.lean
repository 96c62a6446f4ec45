import Snowform.Lexical.Strip
import Snowform.Proofs.Lexical.Closing
import Snowform.Proofs.Lexical.Rescanning
import Snowform.Proofs.Lexical.Sources
import Snowform.Proofs.Lexical.Veiling

/-!
# Quoted names in code

Any name can be written between double quotes, if its own quotes are written
twice.  It is one region then, of which a masked script shows the quotes and
nothing that could be taken for code.

`spell` is code with quoted names in it.  As no literal and no comment starts
in the code, the regions are those of the names and the characters of code
between them.
-/

namespace Snowform.Lexical

open Text

/-! ## Quotes that are written twice -/

/-- A text with one of its characters written twice. -/
def twice (quote : Char) (text : Text) : Text :=
  text.flatMap fun character =>
    if character = quote then [quote, quote] else [character]

section

variable {quote : Char}

theorem twice_cons_quote (rest : Text) :
    twice quote (quote :: rest) = quote :: quote :: twice quote rest := by
  rw [twice, List.flatMap_cons, if_pos rfl]
  rfl

theorem twice_cons {character : Char} (other : character ≠ quote)
    (rest : Text) :
    twice quote (character :: rest) = character :: twice quote rest := by
  rw [twice, List.flatMap_cons, if_neg other]
  rfl

/-- What has its quotes doubled runs up to the first that stands alone. -/
theorem quotedRest_twice_append (text : Text) {rest : Text}
    (single : rest.head? ≠ some quote) :
    quotedRest quote (twice quote text ++ quote :: rest) =
      twice quote text ++ [quote] := by
  induction text with
  | nil => exact quotedRest_closed single
  | cons character others ih =>
      by_cases same : character = quote
      · rw [same, twice_cons_quote]
        simp only [List.cons_append]
        rw [quotedRest_doubled, ih]
      · rw [twice_cons same]
        simp only [List.cons_append]
        rw [quotedRest_of_ne same, ih]

end

/-! ## Quoted names -/

/-- A name with its double quotes written twice. -/
def doubled (name : Text) : Text :=
  name.flatMap fun character =>
    if character = '"' then ['"', '"'] else [character]

/-- A name between double quotes. -/
def quotedName (name : Text) : Text :=
  '"' :: (doubled name ++ ['"'])

def quotedRegion (name : Text) : Region :=
  ⟨.doubleQuote, quotedName name⟩

@[simp]
theorem doubled_cons_quote (rest : Text) :
    doubled ('"' :: rest) = '"' :: '"' :: doubled rest := rfl

theorem doubled_cons {character : Char} (other : character ≠ '"')
    (rest : Text) : doubled (character :: rest) = character :: doubled rest := by
  rw [doubled, List.flatMap_cons, if_neg other]
  rfl

theorem doubled_of_not_mem {name : Text} (absent : '"' ∉ name) :
    doubled name = name := by
  induction name with
  | nil => rfl
  | cons character rest ih =>
      rw [List.mem_cons, not_or] at absent
      rw [doubled_cons (Ne.symm absent.1), ih absent.2]

theorem mem_doubled {name : Text} {character : Char} :
    character ∈ doubled name ↔ character ∈ name := by
  induction name with
  | nil => rfl
  | cons first rest ih =>
      by_cases quote : first = '"'
      · rw [quote, doubled_cons_quote, List.mem_cons, List.mem_cons, ih,
          List.mem_cons]
        tauto
      · rw [doubled_cons quote, List.mem_cons, List.mem_cons, ih]

/-- A doubled name runs up to the first quote that stands alone. -/
theorem quotedRest_doubled_append (name : Text) {rest : Text}
    (single : rest.head? ≠ some '"') :
    quotedRest '"' (doubled name ++ '"' :: rest) = doubled name ++ ['"'] :=
  quotedRest_twice_append name single

theorem lexemesFrom_quotedName (afterName : Bool) (name : Text) {rest : Text}
    (single : rest.head? ≠ some '"') :
    lexemesFrom 0 afterName (quotedName name ++ rest) =
      quotedRegion name :: lexemesFrom 0 false rest := by
  have found : special? afterName ((quotedRegion name).text ++ rest) =
      some (quotedRegion name) := by
    have inside := quotedRest_doubled_append name single
    rw [← List.singleton_append, ← List.append_assoc] at inside
    exact congrArg
      (fun text => some (⟨.doubleQuote, '"' :: text⟩ : Region)) inside
  have behind : nameBehind afterName (quotedRegion name).text = false := by
    have quote : continuesName '"' = false := by decide
    rw [quotedRegion, quotedName, nameBehind_cons, nameBehind_append,
      nameBehind_cons, nameBehind_nil, quote]
  rw [← behind]
  exact lexemesFrom_special found

/-- The cells of a quoted name hide what stands between its quotes. -/
theorem cells_quotedRegion (name : Text) :
    (quotedRegion name).cells =
      .plain '"' :: ((doubled name).flatMap (veil '_') ++ [.plain '"']) := by
  have delimited : (quotedRegion name).delimiter = ['"'] := rfl
  have whole : (quotedRegion name).text = ['"'] ++ (doubled name ++ ['"']) :=
    rfl
  exact Region.cells_closed rfl delimited whole

/-- Hidden characters show the fill, and line feeds that are among them. -/
theorem shown_of_mem_veil {fill : Char} {text : Text} {cell : Cell}
    (member : cell ∈ text.flatMap (veil fill)) :
    shown cell = fill ∨ shown cell = '\n' ∧ '\n' ∈ text := by
  obtain ⟨character, known, hidden⟩ := List.mem_flatMap.mp member
  rw [veil] at hidden
  split at hidden
  next feed =>
    have same : shown cell = character :=
      (List.mem_singleton.mp hidden) ▸ rfl
    exact .inr ⟨same.trans feed, feed ▸ known⟩
  next =>
    rcases List.mem_cons.mp hidden with rfl | padding
    · exact .inl rfl
    · exact .inl ((List.eq_of_mem_replicate padding) ▸ rfl)

/-- What holds of the fill and of line feeds holds where a text is hidden. -/
theorem forall_shown_of_veil (holds : Char → Prop) {fill : Char}
    (atFill : holds fill) (atFeed : holds '\n') {text : Text} :
    ∀ cell ∈ text.flatMap (veil fill), holds (shown cell) := by
  intro cell member
  rcases shown_of_mem_veil member with same | ⟨same, -⟩
  · rw [same]
    exact atFill
  · rw [same]
    exact atFeed

/-- A masked name shows its quotes, the fill and its line feeds. -/
theorem shown_of_mem_quotedRegion {name : Text} {cell : Cell}
    (member : cell ∈ (quotedRegion name).cells) :
    shown cell = '"' ∨ shown cell = '_' ∨
      shown cell = '\n' ∧ '\n' ∈ name := by
  rw [cells_quotedRegion] at member
  rcases List.mem_cons.mp member with rfl | behind
  · exact .inl rfl
  · rcases List.mem_append.mp behind with inside | closing
    · refine .inr ((shown_of_mem_veil inside).imp_right ?_)
      exact And.imp_right mem_doubled.mp
    · rw [List.mem_singleton.mp closing]
      exact .inl rfl

/-! ## Code -/

/-- Code in which no literal and no comment starts. -/
def IsQuiet (code : Text) : Prop :=
  ∀ character ∈ code, character ∉ ['\'', '"', '-', '/', '$']

instance (code : Text) : Decidable (IsQuiet code) :=
  List.decidableBAll _ code

theorem lexemesFrom_quiet {code : Text} (quiet : IsQuiet code)
    (afterName : Bool) (rest : Text) :
    lexemesFrom 0 afterName (code ++ rest) =
      codeRegions code ++ lexemesFrom 0 (nameBehind afterName code) rest := by
  induction code generalizing afterName with
  | nil => rfl
  | cons character others ih =>
      rw [IsQuiet, List.forall_mem_cons] at quiet
      have absent : special? afterName (character :: (others ++ rest)) =
          none := by
        have loud := quiet.1
        simp only [List.mem_cons, List.not_mem_nil, or_false, not_or] at loud
        rw [special?_eq, Mode.openedBy?_cons loud.2.2.2.2]
        simp [loud]
      rw [List.cons_append, lexemesFrom_code absent, ih quiet.2]
      rfl

/-! ## Code with quoted names -/

/-- Code with quoted names, each behind code of its own, and more code. -/
def spell : List (Text × Text) → Text → Text
  | [], ending => ending
  | (code, name) :: others, ending =>
      code ++ (quotedName name ++ spell others ending)

/-- The regions of code with quoted names. -/
def spelledRegions : List (Text × Text) → Text → List Region
  | [], ending => codeRegions ending
  | (code, name) :: others, ending =>
      codeRegions code ++ quotedRegion name :: spelledRegions others ending

/-- The cells of code with quoted names. -/
def spelledCells : List (Text × Text) → Text → List Cell
  | [], ending => ending.map .plain
  | (code, name) :: others, ending =>
      code.map .plain ++
        ((quotedRegion name).cells ++ spelledCells others ending)

/-- Names behind code that is not empty and in which nothing else starts. -/
structure IsSpelling (parts : List (Text × Text)) (ending : Text) : Prop where
  codes : ∀ code ∈ parts.map Prod.fst, code ≠ [] ∧ IsQuiet code
  ending : IsQuiet ending

theorem IsSpelling.tail {part : Text × Text} {others : List (Text × Text)}
    {ending : Text} (spelling : IsSpelling (part :: others) ending) :
    IsSpelling others ending where
  codes := (List.forall_mem_cons.mp spelling.codes).2
  ending := spelling.ending

theorem IsQuiet.head_ne {code : Text} (quiet : IsQuiet code) :
    code.head? ≠ some '"' := by
  intro first
  have quote := quiet '"' (List.mem_of_mem_head? first)
  exact quote (by decide)

theorem IsSpelling.head_ne {parts : List (Text × Text)} {ending : Text}
    (spelling : IsSpelling parts ending) :
    (spell parts ending).head? ≠ some '"' := by
  cases parts with
  | nil => exact spelling.ending.head_ne
  | cons part others =>
      obtain ⟨nonempty, quiet⟩ := spelling.codes part.1 List.mem_cons_self
      rw [spell, List.head?_append_of_ne_nil _ nonempty]
      exact quiet.head_ne

/-- Names and code are found again as they were spelled. -/
theorem lexemesFrom_spell {parts : List (Text × Text)} {ending : Text}
    (spelling : IsSpelling parts ending) (afterName : Bool) :
    lexemesFrom 0 afterName (spell parts ending) =
      spelledRegions parts ending := by
  induction parts generalizing afterName with
  | nil =>
      have code := lexemesFrom_quiet spelling.ending afterName []
      rw [lexemesFrom, List.append_nil, List.append_nil] at code
      exact code
  | cons part others ih =>
      have quiet := (spelling.codes part.1 List.mem_cons_self).2
      -- No quote follows the one that closes the name, or it would be doubled.
      rw [spell, lexemesFrom_quiet quiet,
        lexemesFrom_quotedName _ _ spelling.tail.head_ne,
        ih spelling.tail]
      rfl

theorem cells_codeRegions (code : Text) :
    (codeRegions code).flatMap Region.cells = code.map .plain := by
  rw [codeRegions, List.flatMap_map]
  exact List.flatMap_pure_eq_map _ code

theorem cells_spell {parts : List (Text × Text)} {ending : Text}
    (spelling : IsSpelling parts ending) :
    cells (spell parts ending) = spelledCells parts ending := by
  have regions : ∀ parts : List (Text × Text),
      (spelledRegions parts ending).flatMap Region.cells =
        spelledCells parts ending := by
    intro parts
    induction parts with
    | nil => exact cells_codeRegions ending
    | cons part others ih =>
        rw [spelledRegions, List.flatMap_append, cells_codeRegions,
          List.flatMap_cons, ih]
        rfl
  rw [cells, lexemes, lexemesFrom_spell spelling, regions]

/-- A semicolon behind the whole is one more region of code. -/
theorem spell_append_semicolon (parts : List (Text × Text)) (ending : Text) :
    spell parts (ending ++ [';']) = spell parts ending ++ [';'] ∧
      spelledRegions parts (ending ++ [';']) =
        spelledRegions parts ending ++ [semicolon] := by
  induction parts with
  | nil => exact ⟨rfl, List.map_append⟩
  | cons part others ih =>
      rw [spell, spell, spelledRegions, spelledRegions, ih.1, ih.2]
      simp only [List.append_assoc, List.cons_append, and_self]

/-! ## Without comments and strings -/

/-- A region is a quoted name or a character of code. -/
theorem mem_spelledRegions {parts : List (Text × Text)} {ending : Text}
    {region : Region} (member : region ∈ spelledRegions parts ending) :
    region.kind = .doubleQuote ∨ ∃ character, region = ⟨.code, [character]⟩ ∧
      (character ∈ ending ∨ ∃ part ∈ parts, character ∈ part.1) := by
  induction parts with
  | nil =>
      obtain ⟨character, inside, rfl⟩ := List.mem_map.mp member
      exact .inr ⟨character, rfl, .inl inside⟩
  | cons part others ih =>
      rcases List.mem_append.mp member with code | behind
      · obtain ⟨character, inside, rfl⟩ := List.mem_map.mp code
        exact .inr ⟨character, rfl, .inr ⟨part, List.mem_cons_self, inside⟩⟩
      · rcases List.mem_cons.mp behind with rfl | later
        · exact .inl rfl
        · refine (ih later).imp_right ?_
          rintro ⟨character, same, place⟩
          refine ⟨character, same, place.imp_right ?_⟩
          rintro ⟨other, known, inside⟩
          exact ⟨other, List.mem_cons_of_mem part known, inside⟩

section

variable {parts : List (Text × Text)} {ending : Text}
  (spelling : IsSpelling parts ending)

include spelling

/-- What leaves names and code as they are leaves the whole as it is. -/
theorem flatMap_lexemes_spell {left : Region → Text}
    (names : ∀ region : Region, region.kind = .doubleQuote →
      left region = region.text)
    (codes : ∀ text : Text, left ⟨.code, text⟩ = text) :
    (lexemes (spell parts ending)).flatMap left = spell parts ending := by
  calc
    (lexemes (spell parts ending)).flatMap left =
        textOf (lexemes (spell parts ending)) := by
      apply List.flatMap_congr
      intro region member
      rw [lexemes, lexemesFrom_spell spelling] at member
      rcases mem_spelledRegions member with name | ⟨character, rfl, -⟩
      · exact names region name
      · exact codes [character]
    _ = spell parts ending := textOf_lexemes _

theorem stripComments_spell :
    stripComments (spell parts ending) = spell parts ending := by
  refine flatMap_lexemes_spell spelling ?_ fun _ => rfl
  intro region name
  rw [Region.withoutComment, name]

theorem stripCommentsAndStrings_spell :
    stripCommentsAndStrings (spell parts ending) = spell parts ending := by
  refine flatMap_lexemes_spell spelling ?_ fun _ => rfl
  intro region name
  rw [Region.withoutString, name, Region.withoutComment, name]

/-! ## Statements -/

theorem isClosed_spell : IsClosed (spell parts ending) := by
  obtain ⟨longer, regionsLonger⟩ := spell_append_semicolon parts ending
  have quiet : IsSpelling parts (ending ++ [';']) := by
    refine ⟨spelling.codes, List.forall_mem_append.mpr ⟨spelling.ending, ?_⟩⟩
    exact List.forall_mem_singleton.mpr (by decide)
  apply isClosed_of_lexemes
  rw [← longer, lexemes, lexemesFrom_spell quiet, regionsLonger, lexemes,
    lexemesFrom_spell spelling]

/-- Without a semicolon in its code the whole is one statement. -/
theorem statementTexts_spell
    (whole : ∀ code ∈ parts.map Prod.fst, ';' ∉ code) (ends : ';' ∉ ending) :
    statementTexts (spell parts ending) = [spell parts ending] := by
  have single : piecesAt endsStatement (lexemes (spell parts ending)) =
      [lexemes (spell parts ending)] := by
    apply piecesAt_of_forall
    intro region member
    rw [lexemes, lexemesFrom_spell spelling] at member
    rw [Bool.eq_false_iff]
    intro semicolon
    rcases mem_spelledRegions member with name | ⟨character, rfl, place⟩
    · simp [endsStatement, name] at semicolon
    · have same : character = ';' := by simpa [endsStatement] using semicolon
      rw [same] at place
      rcases place with last | ⟨part, known, inside⟩
      · exact ends last
      · exact whole part.1 (List.mem_map_of_mem known) inside
  rw [statementTexts, single, List.map_singleton]
  exact congrArg (fun text => [text]) (textOf_lexemes _)

end

end Snowform.Lexical
