import Snowform.Proofs.Lexical.Placement

/-!
# Statements part a script

Statements are slices of their script in order.  They are trimmed and hold no
semicolon of code, two of them are parted by one, and what lies outside of
all statements is blanks and semicolons of code.  The line of a statement
counts the line feeds before it.
-/

namespace Snowform

open Text Lexical

/-- Whether a byte of a script is a semicolon of code. -/
def SemicolonAt (script : Text) (byte : Nat) : Prop :=
  characterAt? script byte = some ';' ∧ kindAt? script byte = some .code

/-- Whether a statement stops before another one starts. -/
def PlacedStatement.Precedes (first second : PlacedStatement) : Prop :=
  first.stop ≤ second.start

instance : Trans PlacedStatement.Precedes PlacedStatement.Precedes
    PlacedStatement.Precedes where
  trans := by
    intro first second third before after
    have bounds : second.start ≤ second.stop := Nat.le_add_right _ _
    exact before.trans (bounds.trans after)

/-- Statements that a script parts into, in order. -/
structure PartsInto (script : Text) (list : List PlacedStatement) :
    Prop where
  slices : ∀ placed ∈ list,
    slice? placed.start placed.stop script = some placed.text
  trimmed : ∀ placed ∈ list,
    placed.text ≠ [] ∧ trim placed.text = placed.text
  whole : ∀ placed ∈ list, ∀ byte, placed.start ≤ byte →
    byte < placed.stop → ¬ SemicolonAt script byte
  /-- Nothing but blanks and semicolons of code is left out. -/
  outside : ∀ byte, byte < byteSize script →
    (∀ placed ∈ list, ¬ (placed.start ≤ byte ∧ byte < placed.stop)) →
    SemicolonAt script byte ∨
      ∃ character, characterAt? script byte = some character ∧
        isBlank character = true
  parted : list.IsChain fun first second =>
    ∃ byte, first.stop ≤ byte ∧ byte < second.start ∧
      SemicolonAt script byte
  disjoint : list.Pairwise PlacedStatement.Precedes
  numbered : ∀ placed ∈ list, ∃ before,
    slice? 0 placed.start script = some before ∧
      placed.line = 1 + lineFeeds before

namespace Lexical

/-! ## Painted semicolons -/

theorem semicolonAt_iff (script : Text) (byte : Nat) :
    SemicolonAt script byte ↔
      coverAt? paintedWidth byte (painted (lexemes script)) =
        some (';', .code) := by
  rw [SemicolonAt, characterAt?_eq, kindAt?_eq]
  cases coverAt? paintedWidth byte (painted (lexemes script)) with
  | none => simp
  | some shown => simp [Prod.ext_iff]

/-- Where regions paint a semicolon of code, one of them ends a statement. -/
theorem exists_endsStatement {regions : List Region}
    (lexemes : ∀ region ∈ regions, IsLexeme region)
    (member : (';', RegionKind.code) ∈ painted regions) :
    ∃ region ∈ regions, endsStatement region = true := by
  obtain ⟨region, known, shown⟩ := List.mem_flatMap.mp member
  obtain ⟨character, inside, equal⟩ := List.mem_map.mp shown
  obtain ⟨rfl, code⟩ := Prod.mk.inj equal
  obtain ⟨only, text⟩ := (lexemes region known).2 code
  rw [text, List.mem_singleton] at inside
  subst only
  exact ⟨region, known, by simp [endsStatement, code, text]⟩

/-! ## Lookups from piece to piece -/

theorem coverAt?_piece {piece : List Region} {byte : Nat}
    (inside : byte < byteSize (textOf piece)) (after : List Region) :
    coverAt? paintedWidth byte (painted (piece ++ after)) =
      coverAt? paintedWidth byte (painted piece) := by
  rw [← coveredSize_painted] at inside
  rw [painted_append, coverAt?_append_left inside]

theorem coverAt?_semicolon (piece rest : List Region) :
    coverAt? paintedWidth (byteSize (textOf piece))
        (painted (piece ++ semicolon :: rest)) =
      some (';', .code) := by
  rw [← coveredSize_painted, painted_append]
  exact coverAt?_append_cons (painted piece) (painted rest)
    (';', RegionKind.code) (by decide)

theorem coverAt?_next (piece rest : List Region) (byte : Nat) :
    coverAt? paintedWidth (byteSize (textOf piece) + 1 + byte)
        (painted (piece ++ semicolon :: rest)) =
      coverAt? paintedWidth byte (painted rest) := by
  have width : coveredSize paintedWidth (painted (piece ++ [semicolon])) =
      byteSize (textOf piece) + 1 := by
    rw [coveredSize_painted, textOf_append, byteSize_append]
    rfl
  have parts : painted (piece ++ semicolon :: rest) =
      painted (piece ++ [semicolon]) ++ painted rest := by
    simp
  rw [parts, ← width, coverAt?_append_right (Nat.le_add_right _ _),
    Nat.add_sub_cancel_left]

/-! ## All statements -/

theorem stop_le_of_placeStatement? {start line : Nat} {text : Text}
    {placed : PlacedStatement}
    (found : placeStatement? start line text = some placed) :
    placed.stop ≤ start + byteSize text := by
  obtain ⟨trimmed, -, begins, -⟩ := placeStatement?_eq_some found
  have size := congrArg byteSize (leading_trim_trailing text)
  simp only [byteSize_append] at size
  rw [PlacedStatement.stop, trimmed, begins]
  omega

theorem isChain_toList {α : Type} {related : α → α → Prop}
    (option : Option α) : option.toList.IsChain related := by
  cases option with
  | none => exact List.isChain_nil
  | some element => exact List.isChain_singleton element

/-- Between two statements there is a semicolon of code. -/
theorem isChain_placeRegions (start line : Nat) (regions : List Region) :
    (placeRegions start line regions).IsChain fun first second =>
      ∃ byte, first.stop ≤ start + byte ∧ start + byte < second.start ∧
        coverAt? paintedWidth byte (painted regions) =
          some (';', .code) := by
  induction regions using pieceInduction generalizing start line with
  | last piece whole =>
      rw [placeRegions_last whole]
      exact isChain_toList _
  | next piece rest whole ih =>
      rw [placeRegions_next whole, List.isChain_append]
      refine ⟨isChain_toList _, ?_, ?_⟩
      · refine (ih _ _).imp ?_
        rintro first second ⟨byte, stops, starts, shown⟩
        refine ⟨byteSize (textOf piece) + 1 + byte, by omega, by omega, ?_⟩
        rw [coverAt?_next]
        exact shown
      · intro first last second head
        have found := Option.mem_toList.mp (List.mem_of_mem_getLast? last)
        have later := le_start_of_mem_placeRegions (List.mem_of_mem_head? head)
        have stops := stop_le_of_placeStatement? found
        exact ⟨byteSize (textOf piece), stops, by omega,
          coverAt?_semicolon piece rest⟩

/-- What trimming takes away of a text is blank. -/
theorem isBlank_outside_trim {text : Text} {byte : Nat}
    (inside : byte < byteSize text)
    (outside : byte < byteSize (leadingBlanks text) ∨
      byteSize (leadingBlanks text) + byteSize (trim text) ≤ byte) :
    ∃ character, characterAt? text byte = some character ∧
      isBlank character = true := by
  obtain ⟨character, covers⟩ := exists_coverAt? inside
  refine ⟨character, covers, ?_⟩
  rw [← leading_trim_trailing text] at covers
  rcases outside with before | behind
  · rw [coverAt?_append_left before] at covers
    exact isBlank_of_mem_leadingBlanks (mem_of_coverAt? covers)
  · have behindLeading :
        coveredSize Char.utf8Size (leadingBlanks text) ≤ byte := by
      rw [coveredSize_utf8Size]
      omega
    have behindTrim : coveredSize Char.utf8Size (trim text) ≤
        byte - coveredSize Char.utf8Size (leadingBlanks text) := by
      rw [coveredSize_utf8Size, coveredSize_utf8Size]
      omega
    rw [coverAt?_append_right behindLeading,
      coverAt?_append_right behindTrim] at covers
    exact isBlank_of_mem_trailingBlanks (mem_of_coverAt? covers)

/-- A byte of a piece that is outside of its statement is blank. -/
theorem blank_of_piece {start line byte : Nat} {piece : List Region}
    (inside : byte < byteSize (textOf piece))
    (outside : ∀ placed,
      placeStatement? start line (textOf piece) = some placed →
        ¬ (placed.start ≤ start + byte ∧ start + byte < placed.stop)) :
    ∃ shown, coverAt? paintedWidth byte (painted piece) = some shown ∧
      isBlank shown.1 = true := by
  have outsideTrim : byte < byteSize (leadingBlanks (textOf piece)) ∨
      byteSize (leadingBlanks (textOf piece)) +
        byteSize (trim (textOf piece)) ≤ byte := by
    cases found : placeStatement? start line (textOf piece) with
    | none =>
        rw [placeStatement?_eq_none found, byteSize_nil]
        omega
    | some placed =>
        obtain ⟨trimmed, -, begins, -⟩ := placeStatement?_eq_some found
        have away := outside placed found
        rw [PlacedStatement.stop, trimmed, begins] at away
        omega
  obtain ⟨character, covers, blank⟩ :=
    isBlank_outside_trim inside outsideTrim
  rw [characterAt?, ← map_fst_painted,
    coverAt?_map Prod.fst (fun _ => rfl) byte (painted piece)] at covers
  obtain ⟨shown, known, rfl⟩ := Option.map_eq_some_iff.mp covers
  exact ⟨shown, known, blank⟩

/-- A byte outside of all statements is blank or a semicolon of code. -/
theorem blank_or_semicolon {start line byte : Nat} {regions : List Region}
    (inside : byte < byteSize (textOf regions))
    (outside : ∀ placed ∈ placeRegions start line regions,
      ¬ (placed.start ≤ start + byte ∧ start + byte < placed.stop)) :
    ∃ shown, coverAt? paintedWidth byte (painted regions) = some shown ∧
      (shown = (';', .code) ∨ isBlank shown.1 = true) := by
  -- The byte lies in the first piece, on its semicolon or behind it.
  induction regions using pieceInduction generalizing start line byte with
  | last piece whole =>
      rw [placeRegions_last whole] at outside
      obtain ⟨shown, covers, blank⟩ := blank_of_piece inside
        fun placed found => outside placed (Option.mem_toList.mpr found)
      exact ⟨shown, covers, Or.inr blank⟩
  | next piece rest whole ih =>
      rw [placeRegions_next whole] at outside
      by_cases here : byte < byteSize (textOf piece)
      · obtain ⟨shown, covers, blank⟩ := blank_of_piece here
          fun placed found => outside placed
            (List.mem_append_left _ (Option.mem_toList.mpr found))
        exact ⟨shown, by rw [coverAt?_piece here, covers], Or.inr blank⟩
      by_cases last : byte = byteSize (textOf piece)
      · rw [last, coverAt?_semicolon]
        exact ⟨_, rfl, Or.inl rfl⟩
      · obtain ⟨later, rfl⟩ : ∃ later,
            byte = byteSize (textOf piece) + 1 + later :=
          ⟨byte - byteSize (textOf piece) - 1, by omega⟩
        have width : byteSize semicolon.text = 1 := by decide
        simp only [textOf_append, textOf_cons, byteSize_append, width]
          at inside
        have outsideRest : ∀ placed ∈ placeRegions
            (start + byteSize (textOf piece) + 1)
            (line + lineFeeds (textOf piece)) rest,
            ¬ (placed.start ≤ start + byteSize (textOf piece) + 1 + later ∧
              start + byteSize (textOf piece) + 1 + later < placed.stop) := by
          intro placed member
          have away := outside placed (List.mem_append_right _ member)
          omega
        rw [coverAt?_next]
        exact ih (by omega) outsideRest

/-! ## Slices -/

/-- The text before a statement, the statement and the text behind it. -/
theorem StandsIn.texts {start line : Nat}
    {regions before inside after : List Region} {placed : PlacedStatement}
    (stands : StandsIn start line regions placed before inside after) :
    textOf regions =
      (textOf before ++ leadingBlanks (textOf inside)) ++ placed.text ++
        (trailingBlanks (textOf inside) ++ textOf after) := by
  have parts := leading_trim_trailing (textOf inside)
  rw [stands.parts, textOf_append, textOf_append, stands.text_eq]
  conv_lhs => rw [← parts]
  simp only [List.append_assoc]

/-- A statement lies inside of the regions that it is trimmed from. -/
theorem StandsIn.inside_bounds {line : Nat}
    {regions before inside after : List Region} {placed : PlacedStatement}
    (stands : StandsIn 0 line regions placed before inside after) :
    byteSize (textOf before) ≤ placed.start ∧
      placed.stop ≤ byteSize (textOf before) + byteSize (textOf inside) := by
  have size := congrArg byteSize (leading_trim_trailing (textOf inside))
  simp only [byteSize_append] at size
  rw [PlacedStatement.stop, stands.start_eq, stands.text_eq,
    byteSize_append]
  omega

/-- No byte of a statement is a semicolon of code. -/
theorem StandsIn.not_semicolon {line byte : Nat}
    {regions before inside after : List Region} {placed : PlacedStatement}
    (stands : StandsIn 0 line regions placed before inside after)
    (lexemes : ∀ region ∈ regions, IsLexeme region)
    (starts : placed.start ≤ byte) (stops : byte < placed.stop) :
    coverAt? paintedWidth byte (painted regions) ≠ some (';', .code) := by
  intro covers
  obtain ⟨lower, upper⟩ := stands.inside_bounds
  have behind : coveredSize paintedWidth (painted before) ≤ byte := by
    rw [coveredSize_painted]
    omega
  have within : byte - coveredSize paintedWidth (painted before) <
      byteSize (textOf inside) := by
    rw [coveredSize_painted]
    omega
  rw [stands.parts, painted_append, coverAt?_append_right behind,
    coverAt?_piece within] at covers
  have known : ∀ region ∈ inside, IsLexeme region := by
    intro region member
    apply lexemes region
    rw [stands.parts]
    exact List.mem_append_right _ (List.mem_append_left _ member)
  obtain ⟨region, member, ends⟩ :=
    exists_endsStatement known (mem_of_coverAt? covers)
  rw [stands.whole region member] at ends
  cases ends

/-- Places forgotten, the placed statements are the statements. -/
theorem map_toStatement_placeStatements (start line : Nat)
    (texts : List Text) :
    (placeStatements start line texts).map PlacedStatement.toStatement =
      numberStatements line texts := by
  induction texts generalizing start line with
  | nil => rfl
  | cons text others ih =>
      rw [placeStatements, List.map_append, ih, numberStatements,
        placeStatement?]
      split <;> rfl

theorem map_toStatement_placedStatements (script : Text) :
    (placedStatements script).map PlacedStatement.toStatement =
      statements script :=
  map_toStatement_placeStatements 0 1 (statementTexts script)

theorem exists_standsIn {script : Text} {placed : PlacedStatement}
    (member : placed ∈ placedStatements script) :
    ∃ before inside after,
      StandsIn 0 1 (lexemes script) placed before inside after := by
  rw [placedStatements_eq] at member
  exact standsIn_of_mem_placeRegions member

theorem slice?_of_mem_placedStatements {script : Text}
    {placed : PlacedStatement} (member : placed ∈ placedStatements script) :
    slice? placed.start placed.stop script = some placed.text := by
  obtain ⟨before, inside, after, stands⟩ := exists_standsIn member
  have texts := stands.texts
  rw [textOf_lexemes] at texts
  rw [PlacedStatement.stop, stands.start_eq, Nat.zero_add]
  conv_lhs => rw [texts]
  exact slice?_byteSize _ _ _

theorem partsInto_placedStatements (script : Text) :
    PartsInto script (placedStatements script) where
  slices := fun placed member => slice?_of_mem_placedStatements member
  trimmed := by
    intro placed member
    obtain ⟨before, inside, after, stands⟩ := exists_standsIn member
    refine ⟨stands.nonempty, ?_⟩
    rw [stands.text_eq, trim_trim]
  whole := by
    intro placed member byte starts stops
    obtain ⟨before, inside, after, stands⟩ := exists_standsIn member
    rw [semicolonAt_iff]
    exact stands.not_semicolon
      (fun region known => isLexeme_of_mem_lexemes known) starts stops
  outside := by
    intro byte inside outside
    rw [← textOf_lexemes script] at inside
    rw [placedStatements_eq] at outside
    have away : ∀ placed ∈ placeRegions 0 1 (lexemes script),
        ¬ (placed.start ≤ 0 + byte ∧ 0 + byte < placed.stop) := by
      simpa only [Nat.zero_add] using outside
    obtain ⟨shown, covers, semicolon | blank⟩ :=
      blank_or_semicolon inside away
    · rw [semicolonAt_iff, covers, semicolon]
      exact Or.inl rfl
    · rw [characterAt?_eq, covers]
      exact Or.inr ⟨shown.1, rfl, blank⟩
  parted := by
    refine (isChain_placeRegions 0 1 (lexemes script)).imp ?_
    rintro first second ⟨byte, stops, starts, covers⟩
    rw [Nat.zero_add] at stops starts
    exact ⟨byte, stops, starts, (semicolonAt_iff script byte).mpr covers⟩
  disjoint := by
    have apart : (placedStatements script).IsChain
        PlacedStatement.Precedes := by
      refine (isChain_placeRegions 0 1 (lexemes script)).imp ?_
      rintro first second ⟨byte, stops, starts, -⟩
      exact stops.trans starts.le
    exact apart.pairwise
  numbered := by
    intro placed member
    obtain ⟨before, inside, after, stands⟩ := exists_standsIn member
    have texts := stands.texts
    rw [textOf_lexemes, List.append_assoc] at texts
    refine ⟨textOf before ++ leadingBlanks (textOf inside), ?_,
      stands.line_eq⟩
    rw [stands.start_eq]
    conv_lhs => rw [texts]
    exact slice?_byteSize [] _ _

/--
The statements of every script, with their places, are the parts between its
semicolons of code, and the statements that are read are these.
-/
theorem placedStatements_part (script : Text) :
    (placedStatements script).map PlacedStatement.toStatement =
        statements script ∧
      PartsInto script (placedStatements script) :=
  ⟨map_toStatement_placedStatements script,
    partsInto_placedStatements script⟩

end Lexical

end Snowform
