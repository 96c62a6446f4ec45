import Snowform.Proofs.Ddl.QuotedLists
import Snowform.Proofs.Ddl.Slices
import Snowform.Proofs.Ddl.TableReading
import Snowform.Proofs.Lexical.Parting

/-!
# Entries between commas of code

The entries of a column list are told character by character, when comments
are gone.  Told by regions, they stand between the commas of code at which no
parenthesis of code is open.  Both agree on names, strings and comments.  A
dollar body is read as code, so that they agree on it only if it has no
comma, no parenthesis and no quote.
-/

namespace Snowform

open Text Lexical

/-! ## Entries told by regions -/

/-- A character of code as a region. -/
def codeRegion (character : Char) : Region :=
  ⟨.code, [character]⟩

/-- What is open behind a region, where a number of parentheses was open. -/
def codeDepth (depth : Int) (region : Region) : Int :=
  if region = codeRegion '(' then depth + 1
  else if region = codeRegion ')' then depth - 1
  else depth

/-- Whether a region is a comma of code that no parenthesis is open at. -/
def partsEntries (depth : Int) (region : Region) : Bool :=
  depth == 0 && region = codeRegion ','

/-- The texts between commas of code, comments left out. -/
def codePieces (depth : Int) (regions : List Region) : List Text :=
  (pieces partsEntries codeDepth depth regions).map
    (List.flatMap Region.withoutComment)

/-- The entries between commas of code, trimmed and without the empty ones. -/
def codeEntries (regions : List Region) : List Text :=
  ((codePieces 0 regions).map trim).filter fun entry => !entry.isEmpty

/-- A dollar body as code, character by character. -/
def Region.dollarAsCode (region : Region) : List Region :=
  if region.kind = .dollarQuote then region.text.map codeRegion else [region]

/-- The pieces of a text where no quote is open. -/
abbrev textPieces (depth : Int) (text : Text) : List Text :=
  pieces Nesting.separates Nesting.advance ⟨none, depth⟩ text

/-! ## One region -/

theorem pieces_ne_nil {σ α : Type} (separates : σ → α → Bool)
    (advance : σ → α → σ) (state : σ) (list : List α) :
    pieces separates advance state list ≠ [] := by
  obtain ⟨piece, others, found, -⟩ :=
    exists_pieces_eq_cons separates advance state list
  rw [found]
  exact List.cons_ne_nil piece others

theorem map_consFirst_withoutComment (region : Region)
    {list : List (List Region)} (nonempty : list ≠ []) :
    (consFirst region list).map (List.flatMap Region.withoutComment) =
      region.withoutComment.foldr consFirst
        (list.map (List.flatMap Region.withoutComment)) := by
  obtain ⟨first, others, rfl⟩ := List.exists_cons_of_ne_nil nonempty
  rw [consFirst, List.map_cons, List.map_cons, foldr_consFirst,
    List.flatMap_cons]

/-- A region that is neither a comma nor a parenthesis belongs to a piece. -/
theorem codePieces_cons {region : Region}
    (other : ∀ character ∈ [',', '(', ')'], region ≠ codeRegion character)
    (depth : Int) (others : List Region) :
    codePieces depth (region :: others) =
      region.withoutComment.foldr consFirst (codePieces depth others) := by
  have joins : partsEntries depth region = false := by
    rw [partsEntries, decide_eq_false (other ',' (by decide)), Bool.and_false]
  have stays : codeDepth depth region = depth := by
    rw [codeDepth, if_neg (other '(' (by decide)),
      if_neg (other ')' (by decide))]
  rw [codePieces, pieces_cons joins, stays, codePieces,
    map_consFirst_withoutComment region (pieces_ne_nil _ _ _ _)]

theorem codeRegion_inj {character other : Char} :
    codeRegion character = codeRegion other ↔ character = other := by
  rw [codeRegion, codeRegion, Region.mk.injEq, List.singleton_inj]
  exact and_iff_right rfl

/-- A text without quotes. -/
def IsUnquoted (text : Text) : Prop :=
  '\'' ∉ text ∧ '"' ∉ text

section

variable {text : Text} {others : List Region}
  (behind : ∀ depth, textPieces depth text = codePieces depth others)

include behind

/-- A character of code means the same to both. -/
theorem textPieces_cons {character : Char}
    (noQuote : character ≠ '\'' ∧ character ≠ '"') (depth : Int) :
    textPieces depth (character :: text) =
      codePieces depth (codeRegion character :: others) := by
  have separates : Nesting.separates ⟨none, depth⟩ character =
      partsEntries depth (codeRegion character) := by
    simp [Nesting.separates, partsEntries, codeRegion_inj,
      Bool.beq_eq_decide_eq]
  have advances : Nesting.advance ⟨none, depth⟩ character =
      ⟨none, codeDepth depth (codeRegion character)⟩ := by
    simp only [Nesting.advance, codeDepth, codeRegion_inj, noQuote, or_self,
      if_false]
    split
    · rfl
    · split <;> rfl
  have later : pieces Nesting.separates Nesting.advance
      ⟨none, codeDepth depth (codeRegion character)⟩ text = _ := behind _
  rw [textPieces, pieces, separates, advances, codePieces, pieces, later]
  split
  next => rfl
  next =>
    rw [map_consFirst_withoutComment _ (pieces_ne_nil _ _ _ _)]
    rfl

theorem textPieces_append {code : Text} (unquoted : IsUnquoted code)
    (depth : Int) :
    textPieces depth (code ++ text) =
      codePieces depth (code.map codeRegion ++ others) := by
  induction code generalizing depth with
  | nil => exact behind depth
  | cons character rest ih =>
      simp only [IsUnquoted, List.mem_cons, not_or] at unquoted
      exact textPieces_cons (ih ⟨unquoted.1.2, unquoted.2.2⟩)
        ⟨Ne.symm unquoted.1.1, Ne.symm unquoted.2.1⟩ depth

/-- A region without a comma that parts entries is whole to both. -/
theorem textPieces_undivided {region : Region}
    (other : ∀ character ∈ [',', '(', ')'], region ≠ codeRegion character)
    {depth : Int} (undivided : IsUndivided depth region.withoutComment) :
    textPieces depth (region.withoutComment ++ text) =
      codePieces depth (region :: others) := by
  rw [codePieces_cons other, ← behind depth]
  exact undivided text

end

/-- A region that is not code is no character of code. -/
theorem ne_codeRegion {region : Region} (special : region.kind ≠ .code) :
    ∀ character ∈ [',', '(', ')'], region ≠ codeRegion character := by
  rintro character - rfl
  exact special rfl

/-- A quoted stretch that is closed is whole. -/
theorem isUndivided_quotedRest {quote : Char}
    (isQuote : quote = '\'' ∨ quote = '"') {text rest : Text}
    (parts : quotedRest quote text ++ rest = text) (goesOn : rest ≠ [])
    (depth : Int) : IsUndivided depth (quote :: quotedRest quote text) := by
  have joins : ∀ nesting : Nesting, nesting.separates quote = false :=
    separates_of_ne (by rcases isQuote with rfl | rfl <;> decide)
  have closes := Nesting.advance_closing quote depth
  have opens := Nesting.advance_opening isQuote depth
  intro behind
  have inside : pieces Nesting.separates Nesting.advance ⟨some quote, depth⟩
      (quotedRest quote text ++ behind) =
        (quotedRest quote text).foldr consFirst
          (textPieces depth behind) := by
    induction text using quotedInduction quote with
    | nil => exact absurd (List.append_eq_nil_iff.mp parts).2 goesOn
    | other character others differs ih =>
        rw [quotedRest_of_ne differs] at parts ⊢
        rw [List.cons_append, pieces_cons rfl, Nesting.advance_quoted differs,
          ih (List.cons.inj parts).2]
        rfl
    | doubled others ih =>
        rw [quotedRest_doubled] at parts ⊢
        rw [List.cons_append, List.cons_append, pieces_cons (joins _), closes,
          pieces_cons (joins _), opens,
          ih (List.cons.inj (List.cons.inj parts).2).2]
        rfl
    | closed others single =>
        rw [quotedRest_closed single, List.singleton_append,
          pieces_cons (joins _), closes]
        rfl
  rw [List.cons_append, pieces_cons (joins _), opens, inside]
  rfl

/-! ## Lists of regions -/

/--
Without their comments, regions are cut as the scanner cuts them, but for the
dollar bodies, which are read as code.
-/
theorem textPieces_regions {regions : List Region}
    (followed : AreFollowed regions)
    (unquoted : ∀ region ∈ regions, region.kind = .dollarQuote →
      IsUnquoted region.text) (depth : Int) :
    textPieces depth (regions.flatMap Region.withoutComment) =
      codePieces depth (regions.flatMap Region.dollarAsCode) := by
  induction followed generalizing depth with
  | nil => rfl
  | code noQuote _ ih =>
      rw [List.forall_mem_cons] at unquoted
      exact textPieces_cons (ih unquoted.2) noQuote depth
  | @special mode inside rest others opens cut goesOn _ ih =>
      rw [List.forall_mem_cons] at unquoted
      have behind := ih unquoted.2
      rw [List.flatMap_cons, List.flatMap_cons]
      generalize equal :
        (⟨mode.kind, mode.opening ++ mode.remainder inside⟩ : Region) = region
      have special : region.kind ≠ .code := by
        rw [← equal]
        exact opens.kind_ne_code
      have undivided : region.kind ≠ .dollarQuote →
          IsUndivided depth region.withoutComment →
            textPieces depth (region.withoutComment ++
              others.flatMap Region.withoutComment) =
                codePieces depth (region.dollarAsCode ++
                  others.flatMap Region.dollarAsCode) := by
        intro other undivided
        rw [Region.dollarAsCode, if_neg other]
        exact textPieces_undivided behind (ne_codeRegion special) undivided
      rw [← equal] at undivided ⊢
      cases mode with
      | code => exact opens.elim
      | dollarQuote tag =>
          exact textPieces_append behind (unquoted.1 rfl) depth
      | singleQuote =>
          exact undivided nofun
            (isUndivided_quotedRest (.inl rfl) cut goesOn depth)
      | doubleQuote =>
          exact undivided nofun
            (isUndivided_quotedRest (.inr rfl) cut goesOn depth)
      | lineComment => exact undivided nofun isWhole_nil
      | blockComment =>
          have blank : IsUndivided depth [' '] :=
            isUndivided_of_isWithout (by decide)
          exact undivided nofun blank

/-- What follows a region is cut alike behind it. -/
theorem codePieces_congr {others further : List Region}
    (same : ∀ depth, codePieces depth others = codePieces depth further)
    (region : Region) (depth : Int) :
    codePieces depth (region :: others) =
      codePieces depth (region :: further) := by
  have behind : (pieces partsEntries codeDepth (codeDepth depth region)
      others).map (List.flatMap Region.withoutComment) =
        (pieces partsEntries codeDepth (codeDepth depth region)
          further).map (List.flatMap Region.withoutComment) := same _
  rw [codePieces, codePieces, pieces, pieces]
  split
  next => rw [List.map_cons, List.map_cons, behind]
  next =>
    rw [map_consFirst_withoutComment _ (pieces_ne_nil _ _ _ _),
      map_consFirst_withoutComment _ (pieces_ne_nil _ _ _ _), behind]

theorem codePieces_map_codeRegion {code : Text}
    (plain : IsWithout [',', '(', ')'] code) (depth : Int)
    (others : List Region) :
    codePieces depth (code.map codeRegion ++ others) =
      code.foldr consFirst (codePieces depth others) := by
  induction code with
  | nil => rfl
  | cons character rest ih =>
      have parts := List.forall_mem_cons.mp plain
      have other : ∀ mark ∈ [',', '(', ')'],
          codeRegion character ≠ codeRegion mark := by
        intro mark member same
        rw [codeRegion_inj.mp same] at parts
        exact parts.1 member
      rw [List.map_cons, List.cons_append, codePieces_cons other, ih parts.2]
      rfl

/-- Dollar bodies without commas and parentheses are parts of pieces. -/
theorem codePieces_dollarAsCode {regions : List Region}
    (plain : ∀ region ∈ regions, region.kind = .dollarQuote →
      IsWithout [',', '(', ')'] region.text) (depth : Int) :
    codePieces depth (regions.flatMap Region.dollarAsCode) =
      codePieces depth regions := by
  induction regions generalizing depth with
  | nil => rfl
  | cons region others ih =>
      rw [List.forall_mem_cons] at plain
      rw [List.flatMap_cons, Region.dollarAsCode]
      split
      next dollar =>
        have text : region.withoutComment = region.text := by
          rw [Region.withoutComment, dollar]
        rw [codePieces_map_codeRegion (plain.1 dollar), ih plain.2,
          codePieces_cons (ne_codeRegion (by rw [dollar]; decide)), text]
      next => exact codePieces_congr (ih plain.2) region depth

/-- What stands in parentheses is cut alone as it is in the script. -/
theorem splitCommas_stripComments {script : Text}
    {first middle last : List Region}
    (parts : lexemes script = first ++ ⟨.code, ['(']⟩ ::
      (middle ++ ⟨.code, [')']⟩ :: last))
    (unquoted : ∀ region ∈ middle, region.kind = .dollarQuote →
      IsUnquoted region.text) :
    splitCommas (stripComments (textOf middle)) =
      codeEntries (middle.flatMap Region.dollarAsCode) := by
  have alone : lexemes (textOf middle) = middle :=
    lexemes_textOf_between (by decide) (by decide) parts
  have cut := textPieces_regions (areFollowed_between parts) unquoted 0
  rw [splitCommas, stripComments, alone, codeEntries, ← cut]

namespace Table

/-- No dollar body of regions has a comma, a parenthesis or a quote. -/
def HasPlainBodies (regions : List Region) : Prop :=
  ∀ region ∈ regions, region.kind = .dollarQuote →
    IsWithout ['\'', '"', '(', ')', ','] region.text

/--
The entries of a column list stand between the commas of code at which no
parenthesis of code is open, except that dollar bodies are read as code.  If
they have no comma, parenthesis or quote, this makes no difference.
-/
theorem entries_part_at_code_commas {statement : Text} {name : QualifiedName}
    {inside tail : List Cell} (listed : Listed statement name inside tail) :
    ∃ before middle behind,
      lexemes statement = before ++ ⟨.code, ['(']⟩ ::
        (middle ++ ⟨.code, [')']⟩ :: behind) ∧
      inside = middle.flatMap Region.cells ∧
      sourceOf inside = .ok (textOf middle) ∧
      ((∀ region ∈ middle, region.kind = .dollarQuote →
          IsUnquoted region.text) →
        splitCommas (stripComments (textOf middle)) =
          codeEntries (middle.flatMap Region.dollarAsCode)) ∧
      (HasPlainBodies middle →
        splitCommas (stripComments (textOf middle)) = codeEntries middle) := by
  obtain ⟨start, rest, named, closed⟩ := listed
  obtain ⟨before, parts⟩ := ((named.leaves.1.trans named.leaves.2).trans
    (leaves_skipBlanks rest)).suffix
  obtain ⟨first, middle, last, cut, rfl, -⟩ :=
    exists_lexemes_of_parenthesised? parts.symm closed
  refine ⟨first, middle, last, cut, rfl,
    sourceOf_eq_ok_iff.mpr (source?_regions middle),
    splitCommas_stripComments cut, ?_⟩
  · intro plain
    have unquoted : ∀ region ∈ middle, region.kind = .dollarQuote →
        IsUnquoted region.text := fun region member dollar =>
      ⟨fun single => plain region member dollar _ single (by decide),
        fun double => plain region member dollar _ double (by decide)⟩
    rw [splitCommas_stripComments cut unquoted, codeEntries,
      codePieces_dollarAsCode fun region member dollar =>
        (plain region member dollar).mono (by decide), codeEntries]

/-- Commas and parentheses in a string, a quoted name and a comment. -/
def partedStatement : Text :=
  "CREATE TABLE t (a VARCHAR DEFAULT '(,', \"b,(\" INT /* , ( */, c DATE)"

/--
Neither commas nor parentheses inside of literals and comments part the list.
-/
theorem entries_part_partedStatement :
    ∃ name inside tail before middle behind,
      Listed partedStatement name inside tail ∧
      lexemes partedStatement = before ++ ⟨.code, ['(']⟩ ::
        (middle ++ ⟨.code, [')']⟩ :: behind) ∧
      inside = middle.flatMap Region.cells ∧
      sourceOf inside = .ok (textOf middle) ∧
      ((∀ region ∈ middle, region.kind = .dollarQuote →
          IsUnquoted region.text) →
        splitCommas (stripComments (textOf middle)) =
          codeEntries (middle.flatMap Region.dollarAsCode)) ∧
      (HasPlainBodies middle →
        splitCommas (stripComments (textOf middle)) = codeEntries middle) := by
  have reads : ((read partedStatement).map (·.1.columns.map (·.name))) =
      .ok ["a", "b,(", "c"] := by
    decide +kernel
  obtain ⟨⟨table, notes⟩, result, -⟩ := map_eq_ok_iff.mp reads
  obtain ⟨flags, start, rest, inside, tail, _, _, readAs⟩ :=
    exists_readAs result
  have listed : Listed partedStatement table.name inside tail :=
    ⟨start, rest, ⟨flags, readAs.head, readAs.name⟩, readAs.list⟩
  obtain ⟨before, middle, behind, found⟩ := entries_part_at_code_commas listed
  exact ⟨table.name, inside, tail, before, middle, behind, listed, found⟩

/-- A column list with a comma in a dollar body. -/
def dollarList : Text :=
  "a VARCHAR DEFAULT $$x,y$$, b INT"

/-- The comma is no code, but the default ends at it. -/
theorem dollarList_is_parted :
    codeEntries (lexemes dollarList) =
        ["a VARCHAR DEFAULT $$x,y$$", "b INT"] ∧
      splitCommas (stripComments dollarList) =
        ["a VARCHAR DEFAULT $$x", "y$$", "b INT"] ∧
      (read ("CREATE TABLE t (" ++ dollarList ++ ")")).map
          (·.1.columns.map fun column => (column.name, column.defaultValue)) =
        .ok [("a", some "$$x"), ("b", none)] := by
  decide +kernel

end Table

end Snowform
