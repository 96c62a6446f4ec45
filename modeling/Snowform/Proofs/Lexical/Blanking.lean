import Snowform.Proofs.Lexical.Masking
import Snowform.Proofs.Lexical.Quoting

/-!
# Comments covered by blanks

`blankComments` puts a blank in the place of every byte of a comment and
leaves line feeds and everything else as they are.  Scanning the script again
finds its literals and its code where they were, so its masked script shows
the same, and all cells of it that were hidden in comments are blanks of
code.
-/

namespace Snowform

open Text Lexical

/-- What is seen of a region when only comments are covered. -/
def Region.blanked (region : Region) : Text :=
  if region.kind.isComment then covered ' ' region.text else region.text

/-- The script with a blank for every byte of a comment, line feeds kept. -/
def Lexical.blankComments (script : Text) : Text :=
  seenText Region.blanked (lexemes script)

namespace Region

theorem blanked_comment {region : Region}
    (comment : region.kind.isComment = true) :
    region.blanked = covered ' ' region.text :=
  if_pos comment

theorem blanked_of_not_comment {region : Region}
    (other : region.kind.isComment = false) : region.blanked = region.text :=
  if_neg (Bool.eq_false_iff.mp other)

end Region

/-! ## Literals are found again -/

namespace Lexical

/-- A search that found its pattern finds it again, whatever follows. -/
theorem upThrough_again {pattern : Text} (nonempty : pattern ≠ [])
    {text rest behind : Text} (parts : upThrough pattern text ++ rest = text)
    (ends : rest = [] → behind = []) :
    upThrough pattern (upThrough pattern text ++ behind) =
      upThrough pattern text := by
  induction text with
  | nil =>
      rw [ends (List.append_eq_nil_iff.mp parts).2]
      rfl
  | cons character others ih =>
      rw [upThrough] at parts ⊢
      split
      next => exact upThrough_self_append nonempty behind
      next notHere =>
        rw [if_neg notHere] at parts
        have later : upThrough pattern others ++ rest = others :=
          (List.cons.inj parts).2
        -- A pattern in front of what was found would have been found there.
        have absent : ¬ pattern.isPrefixOf
            (character :: (upThrough pattern others ++ behind)) = true := by
          rw [List.isPrefixOf_iff_prefix]
          rw [List.isPrefixOf_iff_prefix] at notHere
          rw [← parts, List.cons_append] at notHere
          intro starts
          rcases upThrough_closes pattern later with rfl | closes
          · rw [ends rfl] at starts
            exact notHere starts
          · have room := closes.length_le
            have shorter : pattern <+: character :: upThrough pattern others :=
              List.prefix_of_prefix_length_le starts
                (List.prefix_append (character :: _) _) (by
                  rw [List.length_cons]
                  omega)
            exact notHere
              (shorter.trans (List.prefix_append (character :: _) _))
        rw [List.cons_append, upThrough, if_neg absent, ih later]

/-- A quoted stretch is found again if nothing doubles its closing quote. -/
theorem quotedRest_again {quote : Char} {text rest behind : Text}
    (parts : quotedRest quote text ++ rest = text)
    (keeps : rest.head? ≠ some quote → behind.head? ≠ some quote)
    (ends : rest = [] → behind = []) :
    quotedRest quote (quotedRest quote text ++ behind) =
      quotedRest quote text := by
  induction text using quotedInduction quote with
  | nil =>
      rw [ends (List.append_eq_nil_iff.mp parts).2]
      rfl
  | other character others differs ih =>
      rw [quotedRest_of_ne differs] at parts ⊢
      rw [List.cons_append, quotedRest_of_ne differs,
        ih (List.cons.inj parts).2]
  | doubled others ih =>
      rw [quotedRest_doubled] at parts ⊢
      rw [List.cons_append, List.cons_append, quotedRest_doubled,
        ih (List.cons.inj (List.cons.inj parts).2).2]
  | closed others single =>
      rw [quotedRest_closed single] at parts ⊢
      have same : rest = others := (List.cons.inj parts).2
      exact quotedRest_closed (keeps (same ▸ single))

end Lexical

/-- A literal that is shown as it is is found again where it was. -/
theorem Mode.foundAgain_self {mode : Mode} (opens : mode.Opens)
    (literal : mode.kind.isLiteral = true) {text rest : Text}
    (parts : mode.remainder text ++ rest = text) :
    mode.FoundAgain (mode.opening ++ mode.remainder text)
      (mode.opening ++ mode.remainder text) rest where
  starts := List.prefix_append _ _
  again := by
    intro afterName other behind opened keeps ends
    have again : mode.remainder (mode.remainder text ++ behind) =
        mode.remainder text := by
      cases mode with
      | singleQuote => exact quotedRest_again parts keeps ends
      | doubleQuote => exact quotedRest_again parts keeps ends
      | dollarQuote tag =>
          exact upThrough_again (List.cons_ne_nil '$' (tag ++ ['$'])) parts ends
      | _ => cases literal
    rw [special?_eq, List.append_assoc, openedBy?_opening opened,
      Option.map_some, Mode.region, List.drop_left, again]
  behind := by
    intro before after
    obtain ⟨first, others, opening⟩ :=
      List.exists_cons_of_ne_nil opens.opening_ne_nil
    rw [opening]
    exact Or.inl rfl

theorem covers_blanked : Covers Region.blanked where
  code text := Region.blanked_of_not_comment rfl
  comment := Region.blanked_comment
  literal opens literal text rest parts := by
    rw [Region.blanked_of_not_comment
      (RegionKind.isComment_of_isLiteral literal)]
    exact Mode.foundAgain_self opens literal parts

theorem Lexical.lexemes_blankComments (script : Text) :
    lexemes (blankComments script) =
      (lexemes script).flatMap (Region.shownRegions Region.blanked) :=
  lexemesFrom_seenText covers_blanked.clears false script (Or.inl rfl)

/-! ## Cells -/

/-- A cell as it is when comments are covered by blanks of code. -/
def Cell.revealed : Cell → Cell
  | .plain character => .plain character
  | .veiled fill character =>
      if fill = ' ' then .plain ' ' else .veiled fill character
  | .padding fill => if fill = ' ' then .plain ' ' else .padding fill

@[simp]
theorem Cell.shown_revealed (cell : Cell) : shown cell.revealed = shown cell := by
  cases cell with
  | plain character => rfl
  | veiled fill character =>
      rw [revealed]
      split
      next blank => exact blank.symm
      next => rfl
  | padding fill =>
      rw [revealed]
      split
      next blank => exact blank.symm
      next => rfl

/-- What does not show a blank is shown as it was. -/
theorem Cell.revealed_of_shown {cell : Cell} (visible : shown cell ≠ ' ') :
    cell.revealed = cell := by
  cases cell with
  | plain character => rfl
  | veiled fill character => exact if_neg visible
  | padding fill => exact if_neg visible

namespace Lexical

theorem map_revealed_plain (text : Text) :
    (text.map Cell.plain).map Cell.revealed = text.map .plain := by
  rw [List.map_map]
  rfl

/-- The cells that hide a text. -/
theorem eq_of_mem_veil {fill : Char} {text : Text} {cell : Cell}
    (member : cell ∈ text.flatMap (veil fill)) :
    cell = .plain '\n' ∨ (∃ character ∈ text, cell = .veiled fill character) ∨
      cell = .padding fill := by
  obtain ⟨character, known, hidden⟩ := List.mem_flatMap.mp member
  rw [veil] at hidden
  split at hidden
  next feed =>
    rw [List.mem_singleton.mp hidden, feed]
    exact Or.inl rfl
  next =>
    rcases List.mem_cons.mp hidden with rfl | padding
    · exact Or.inr (Or.inl ⟨character, known, rfl⟩)
    · exact Or.inr (Or.inr (List.eq_of_mem_replicate padding))

theorem map_revealed_comment (text : Text) :
    (text.flatMap (veil ' ')).map Cell.revealed =
      (covered ' ' text).map .plain := by
  rw [covered, List.map_map]
  apply List.map_congr_left
  intro cell member
  rcases eq_of_mem_veil member with rfl | ⟨character, -, rfl⟩ | rfl <;> rfl

theorem map_revealed_literal (text : Text) :
    (text.flatMap (veil '_')).map Cell.revealed = text.flatMap (veil '_') := by
  conv_rhs => rw [← List.map_id (text.flatMap (veil '_'))]
  apply List.map_congr_left
  intro cell member
  rcases eq_of_mem_veil member with rfl | ⟨character, -, rfl⟩ | rfl <;> rfl

end Lexical

/-- The regions that a region is cut into have its cells, revealed. -/
theorem Region.cells_shownRegions (region : Region) :
    (region.shownRegions Region.blanked).flatMap Region.cells =
      region.cells.map Cell.revealed := by
  rw [shownRegions]
  split
  next comment =>
    rw [blanked_comment comment, cells_codeRegions, ← map_revealed_comment]
    obtain ⟨kind, text⟩ := region
    cases kind with
    | lineComment => rfl
    | blockComment => rfl
    | _ => cases comment
  next other =>
    rw [blanked_of_not_comment (Bool.eq_false_iff.mpr other),
      List.flatMap_singleton]
    have delimited :
        region.delimitedCells.map Cell.revealed = region.delimitedCells := by
      simp only [delimitedCells, List.map_append, map_revealed_plain,
        map_revealed_literal]
    obtain ⟨kind, text⟩ := region
    cases kind with
    | code => exact (map_revealed_plain text).symm
    | lineComment => exact absurd rfl other
    | blockComment => exact absurd rfl other
    | _ => exact delimited.symm

namespace Lexical

theorem cells_blankComments (script : Text) :
    cells (blankComments script) = (cells script).map Cell.revealed := by
  rw [cells, lexemes_blankComments, List.flatMap_assoc, cells, List.map_flatMap]
  exact List.flatMap_congr fun region _ => region.cells_shownRegions

/-! ## Stripping -/

/-- What covers comments is kept when comments are removed. -/
theorem stripComments_blankComments (script : Text) :
    stripComments (blankComments script) = blankComments script := by
  have kept : ∀ region ∈ lexemes (blankComments script),
      region.withoutComment = region.text := by
    intro region member
    rw [lexemes_blankComments] at member
    obtain ⟨source, -, member⟩ := List.mem_flatMap.mp member
    rw [Region.shownRegions] at member
    split at member
    next =>
      obtain ⟨character, -, rfl⟩ := List.mem_map.mp member
      rfl
    next other =>
      rw [List.mem_singleton.mp member]
      obtain ⟨kind, text⟩ := source
      cases kind with
      | lineComment => exact absurd rfl other
      | blockComment => exact absurd rfl other
      | _ => rfl
  calc
    stripComments (blankComments script) =
        textOf (lexemes (blankComments script)) :=
      List.flatMap_congr kept
    _ = blankComments script := textOf_lexemes _

end Lexical

end Snowform
