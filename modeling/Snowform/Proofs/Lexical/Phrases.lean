import Snowform.Proofs.Lexical.Quoting

/-!
# Phrases with quoted names

A phrase is code with quoted names and literals that has no comment in it,
ends no statement and is read alike whether or not a name stands before it.

Parts can stand in front of any phrase and are masked by themselves.  Code
that opens nothing is a part, and so are quoted names, lists of parts and
lists in parentheses.
-/

namespace Snowform.Lexical

open Text

/-! ## Phrases -/

/-- A text without comments that is one statement or a part of one. -/
structure IsPhrase (text : Text) : Prop where
  alike : lexemesFrom 0 true text = lexemes text
  kept : ∀ region ∈ lexemes text, region.withoutComment = region.text ∧
    endsStatement region = false

instance (text : Text) : Decidable (IsPhrase text) :=
  decidable_of_iff (_ ∧ _) ⟨fun both => ⟨both.1, both.2⟩,
    fun phrase => ⟨phrase.alike, phrase.kept⟩⟩

theorem isPhrase_nil : IsPhrase [] :=
  ⟨rfl, List.forall_mem_nil _⟩

/-! ### Code that opens nothing -/

/-- A text without some characters. -/
def IsWithout (characters : List Char) (text : Text) : Prop :=
  ∀ character ∈ text, character ∉ characters

instance (characters : List Char) (text : Text) :
    Decidable (IsWithout characters text) :=
  List.decidableBAll _ text

theorem IsWithout.mono {characters others : List Char} {text : Text}
    (without : IsWithout characters text) (fewer : others ⊆ characters) :
    IsWithout others text :=
  fun character member other => without character member (fewer other)

/-- Code that opens nothing and ends no statement. -/
abbrev IsStill (code : Text) : Prop :=
  IsWithout ['\'', '"', '-', '/', '$', ';'] code

theorem IsStill.quiet {code : Text} (still : IsStill code) : IsQuiet code :=
  still.mono (by decide)

section

variable {text : Text} (phrase : IsPhrase text)

include phrase

/-- A phrase is scanned alike behind a name and behind anything else. -/
theorem IsPhrase.lexemesFrom_eq (afterName : Bool) :
    lexemesFrom 0 afterName text = lexemes text := by
  cases afterName with
  | false => rfl
  | true => exact phrase.alike

/-- A phrase has no comment to strip. -/
theorem IsPhrase.stripComments_eq : stripComments text = text := by
  calc
    stripComments text = textOf (lexemes text) :=
      List.flatMap_congr fun region member => (phrase.kept region member).1
    _ = text := textOf_lexemes text

/-- A phrase is one statement. -/
theorem IsPhrase.statementTexts_eq : statementTexts text = [text] := by
  have single : piecesAt endsStatement (lexemes text) = [lexemes text] :=
    piecesAt_of_forall fun region member => (phrase.kept region member).2
  rw [statementTexts, single, List.map_singleton]
  exact congrArg (fun text => [text]) (textOf_lexemes text)

/-! ### Code in front of a phrase -/

section

variable {code : Text} (still : IsStill code)

include still

/-- Code in front of a phrase is scanned character by character. -/
theorem lexemesFrom_code_append (afterName : Bool) :
    lexemesFrom 0 afterName (code ++ text) =
      codeRegions code ++ lexemes text := by
  rw [lexemesFrom_quiet still.quiet, phrase.lexemesFrom_eq]

/-- Code in front of a phrase makes a phrase. -/
theorem isPhrase_code_append : IsPhrase (code ++ text) := by
  refine ⟨?_, ?_⟩
  · rw [lexemes, lexemesFrom_code_append phrase still,
      lexemesFrom_code_append phrase still]
  · rw [lexemes, lexemesFrom_code_append phrase still,
      List.forall_mem_append]
    refine ⟨?_, phrase.kept⟩
    intro region member
    obtain ⟨character, inside, rfl⟩ := List.mem_map.mp member
    refine ⟨rfl, Bool.eq_false_iff.mpr fun ends => ?_⟩
    have same : character = ';' := by simpa [endsStatement] using ends
    exact still character inside (by rw [same]; decide)

theorem cells_code_append :
    cells (code ++ text) = code.map .plain ++ cells text := by
  rw [cells, lexemes, lexemesFrom_code_append phrase still,
    List.flatMap_append, cells_codeRegions, cells]

end

/-! ### Names in front of a phrase -/

/--
A quoted name in front of a phrase makes a phrase, unless its closing quote
would be doubled.
-/
theorem isPhrase_name_append (name : Text) (single : text.head? ≠ some '"') :
    IsPhrase (quotedName name ++ text) := by
  refine ⟨?_, ?_⟩
  · rw [lexemes, lexemesFrom_quotedName _ name single,
      lexemesFrom_quotedName _ name single]
  · rw [lexemes, lexemesFrom_quotedName _ name single, List.forall_mem_cons]
    exact ⟨⟨rfl, rfl⟩, phrase.kept⟩

end

theorem cells_name_append (name : Text) {text : Text}
    (single : text.head? ≠ some '"') :
    cells (quotedName name ++ text) =
      (quotedRegion name).cells ++ cells text := by
  rw [cells, lexemes, lexemesFrom_quotedName _ name single,
    List.flatMap_cons]
  rfl

/-! ## Parts -/

/-- A text that doubles no quote in front of it. -/
abbrev StartsBare (text : Text) : Prop :=
  text.head? ≠ some '\'' ∧ text.head? ≠ some '"'

theorem IsStill.startsBare {code : Text} (still : IsStill code) :
    StartsBare code := by
  constructor <;>
    exact fun first => still _ (List.mem_of_head? first) (by decide)

/--
A text that can stand in front of any phrase, unless a quote follows, which
might double a quote that the text ends in.
-/
structure IsPart (text : Text) : Prop where
  isPhrase_append : ∀ rest : Text, IsPhrase rest → StartsBare rest →
    IsPhrase (text ++ rest)
  cells_append : ∀ rest : Text, IsPhrase rest → StartsBare rest →
    cells (text ++ rest) = cells text ++ cells rest

/-- A part is a phrase of its own. -/
theorem IsPart.isPhrase {text : Text} (part : IsPart text) :
    IsPhrase text := by
  have phrase := part.isPhrase_append [] isPhrase_nil (by decide)
  rwa [List.append_nil] at phrase

theorem isPart_nil : IsPart [] :=
  ⟨fun _ phrase _ => phrase, fun _ _ _ => rfl⟩

theorem cells_quotedName (name : Text) :
    cells (quotedName name) = (quotedRegion name).cells := by
  have single : ([] : Text).head? ≠ some '"' := by decide
  have nothing : cells [] = [] := rfl
  have whole := cells_name_append name single
  rwa [List.append_nil, nothing, List.append_nil] at whole

theorem isPart_quotedName (name : Text) : IsPart (quotedName name) := by
  refine ⟨fun rest phrase bare => isPhrase_name_append phrase name bare.2, ?_⟩
  intro rest _ bare
  rw [cells_name_append name bare.2, cells_quotedName]

/-- Parts make a part, unless they would make a doubled quote. -/
theorem IsPart.append {first second : Text} (firstPart : IsPart first)
    (secondPart : IsPart second) (bare : StartsBare second) :
    IsPart (first ++ second) := by
  have behind : ∀ rest : Text, StartsBare rest →
      StartsBare (second ++ rest) := by
    intro rest restBare
    cases second with
    | nil => exact restBare
    | cons character others => exact bare
  refine ⟨?_, ?_⟩
  · intro rest phrase restBare
    rw [List.append_assoc]
    exact firstPart.isPhrase_append _
      (secondPart.isPhrase_append rest phrase restBare)
      (behind rest restBare)
  · intro rest phrase restBare
    rw [List.append_assoc,
      firstPart.cells_append _ (secondPart.isPhrase_append rest phrase
        restBare) (behind rest restBare),
      secondPart.cells_append rest phrase restBare,
      firstPart.cells_append second secondPart.isPhrase bare,
      List.append_assoc]

/-! ### Code -/

section

variable {code : Text} (still : IsStill code)

include still

theorem IsPart.code_append {text : Text} (part : IsPart text) :
    IsPart (code ++ text) := by
  refine ⟨?_, ?_⟩
  · intro rest phrase bare
    rw [List.append_assoc]
    exact isPhrase_code_append (part.isPhrase_append rest phrase bare) still
  · intro rest phrase bare
    rw [List.append_assoc,
      cells_code_append (part.isPhrase_append rest phrase bare) still,
      part.cells_append rest phrase bare,
      cells_code_append part.isPhrase still, List.append_assoc]

theorem isPart_code : IsPart code := by
  have part := isPart_nil.code_append still
  rwa [List.append_nil] at part

theorem cells_code : cells code = code.map .plain := by
  have whole := cells_code_append isPhrase_nil still
  have nothing : cells [] = [] := rfl
  rwa [List.append_nil, nothing, List.append_nil] at whole

end

/-! ### Lists -/

theorem isStill_comma : IsStill ", " := by
  decide

/-- Parts with commas between them are a part. -/
theorem isPart_intercalate {entries : List Text}
    (parts : ∀ entry ∈ entries, IsPart entry) :
    IsPart ((", " : Text).intercalate entries) := by
  induction entries with
  | nil => exact isPart_nil
  | cons first others ih =>
      rw [List.forall_mem_cons] at parts
      cases others with
      | nil =>
          rw [List.intercalate_singleton]
          exact parts.1
      | cons second further =>
          have behind := (ih parts.2).code_append isStill_comma
          rw [List.intercalate_cons_cons, List.append_assoc]
          exact parts.1.append behind (by simp [StartsBare])

/-- The entries of a list are masked one by one. -/
theorem cells_intercalate {entries : List Text}
    (parts : ∀ entry ∈ entries, IsPart entry) :
    cells ((", " : Text).intercalate entries) =
      ((", " : Text).map Cell.plain).intercalate (entries.map cells) := by
  induction entries with
  | nil => rfl
  | cons first others ih =>
      rw [List.forall_mem_cons] at parts
      cases others with
      | nil => simp only [List.map_singleton, List.intercalate_singleton]
      | cons second further =>
          have behind := isPart_intercalate parts.2
          have comma := behind.code_append isStill_comma
          rw [List.intercalate_cons_cons, List.map_cons, List.map_cons,
            List.intercalate_cons_cons, ← List.map_cons, ← ih parts.2,
            List.append_assoc, List.append_assoc,
            parts.1.cells_append _ comma.isPhrase (by simp [StartsBare]),
            cells_code_append behind.isPhrase isStill_comma]

/-- A list of quoted names, with the same code behind each. -/
def listed (after : Text) (names : List Text) : Text :=
  (", " : Text).intercalate (names.map fun name => quotedName name ++ after)

/-- A quoted name and code behind it are a part. -/
theorem isPart_named (name : Text) {after : Text} (still : IsStill after) :
    IsPart (quotedName name ++ after) :=
  (isPart_quotedName name).append (isPart_code still) still.startsBare

/-- Quoted names with the same code behind each are a part. -/
theorem isPart_listed {after : Text} (still : IsStill after)
    (names : List Text) : IsPart (listed after names) := by
  refine isPart_intercalate fun entry member => ?_
  obtain ⟨name, -, rfl⟩ := List.mem_map.mp member
  exact isPart_named name still

/-! ### Parentheses -/

/-- A list in parentheses behind code. -/
def enclosed (code list : Text) : Text :=
  code ++ '(' :: (list ++ [')'])

theorem getLast?_enclosed (code list : Text) :
    (enclosed code list).getLast? = some ')' := by
  rw [enclosed, ← List.cons_append, ← List.append_assoc, List.getLast?_concat]

section

variable {code list : Text} (still : IsStill code) (part : IsPart list)

include still part

/-- A list in parentheses behind code is a part. -/
theorem isPart_enclosed : IsPart (enclosed code list) := by
  have closing : IsPart (list ++ [')']) :=
    part.append (isPart_code (by decide)) (by decide)
  have opening : IsPart (['('] ++ (list ++ [')'])) :=
    closing.code_append (by decide)
  exact opening.code_append still

/-- What is in parentheses is masked by itself. -/
theorem cells_enclosed_append {rest : Text} (phrase : IsPhrase rest) :
    cells (enclosed code list ++ rest) =
      code.map .plain ++
        .plain '(' :: (cells list ++ .plain ')' :: cells rest) := by
  have opens : IsStill ['('] := by decide
  have closes : IsStill [')'] := by decide
  have closing := isPhrase_code_append phrase closes
  have bare : StartsBare ([')'] ++ rest) := by simp [StartsBare]
  have inside := part.isPhrase_append _ closing bare
  have whole : enclosed code list ++ rest =
      code ++ (['('] ++ (list ++ ([')'] ++ rest))) := by
    simp only [enclosed, List.append_assoc, List.cons_append,
      List.nil_append]
  rw [whole, cells_code_append (isPhrase_code_append inside opens) still,
    cells_code_append inside opens, part.cells_append _ closing bare,
    cells_code_append phrase closes]
  rfl

end

end Snowform.Lexical
