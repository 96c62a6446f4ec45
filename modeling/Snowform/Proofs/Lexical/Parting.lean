import Snowform.Proofs.Lexical.Blanking
import Snowform.Proofs.Lexical.Enclosing
import Snowform.Proofs.Lexical.Leaving

/-!
# Parting a script at marks of code

A masked script shows parentheses, commas and other marks only where they are
code.  So a place next to one of them is a place between regions, and what
stands between two of them is cut into the same regions when it is taken out
of the script.
-/

namespace Snowform

open Text Lexical

namespace Lexical

/-- Whether a masked script shows a character only where it is code. -/
def isMark (character : Char) : Bool :=
  isNeutral character && !isFill character && character != '\n'

theorem isMark_iff {character : Char} :
    isMark character = true ↔ isNeutral character = true ∧
      isFill character = false ∧ character ≠ '\n' := by
  simp [isMark, and_assoc]

/-- Delimiters of literals have no neutral characters. -/
theorem isNeutral_of_mem_opening {mode : Mode} (opens : mode.Opens)
    (literal : mode.kind.isLiteral = true) {character : Char}
    (member : character ∈ mode.opening) : isNeutral character = false := by
  cases mode with
  | singleQuote =>
      rw [List.mem_singleton.mp member]
      decide
  | doubleQuote =>
      rw [List.mem_singleton.mp member]
      decide
  | dollarQuote tag => exact Mode.isNeutral_of_mem_marker opens character member
  | _ => cases literal

/-- A literal hides what stands between its delimiters, or up to its end. -/
theorem exists_cells_literal {mode : Mode} (opens : mode.Opens)
    (literal : mode.kind.isLiteral = true) (text : Text) :
    ∃ hidden closing : Text, mode.remainder text = hidden ++ closing ∧
      (closing = mode.opening ∨
        closing = [] ∧ ¬ mode.opening <:+ mode.remainder text) ∧
      (⟨mode.kind, mode.opening ++ mode.remainder text⟩ : Region).cells =
        mode.opening.map .plain ++
          (hidden.flatMap (veil '_') ++ closing.map .plain) := by
  have delimited := Mode.delimiter_region opens literal (mode.remainder text)
  by_cases ends : mode.opening <:+ mode.remainder text
  · obtain ⟨inside, whole⟩ := ends
    rw [← whole] at delimited ⊢
    exact ⟨inside, mode.opening, rfl, .inl rfl,
      Region.cells_closed literal delimited rfl⟩
  · refine ⟨mode.remainder text, [], (List.append_nil _).symm,
      .inr ⟨rfl, ends⟩, ?_⟩
    rw [Region.cells_unclosed literal delimited rfl ends, List.map_nil,
      List.append_nil]

/-- The cells of a literal are its delimiters and hidden characters. -/
theorem mem_cells_literal {mode : Mode} (opens : mode.Opens)
    (literal : mode.kind.isLiteral = true) {text : Text} {cell : Cell}
    (member : cell ∈
      (⟨mode.kind, mode.opening ++ mode.remainder text⟩ : Region).cells) :
    (∃ character ∈ mode.opening, cell = .plain character) ∨
      cell ∈ (mode.remainder text).flatMap (veil '_') := by
  obtain ⟨hidden, closing, whole, ending, cells⟩ :=
    exists_cells_literal opens literal text
  have shownOpening : cell ∈ mode.opening.map Cell.plain →
      ∃ character ∈ mode.opening, cell = .plain character := by
    intro known
    obtain ⟨character, inside, rfl⟩ := List.mem_map.mp known
    exact ⟨character, inside, rfl⟩
  rw [cells, List.mem_append, List.mem_append] at member
  rw [whole, List.flatMap_append]
  rcases member with opening | inside | closed
  · exact .inl (shownOpening opening)
  · exact .inr (List.mem_append_left _ inside)
  · rcases ending with rfl | ⟨rfl, -⟩
    · exact .inl (shownOpening closed)
    · cases closed

/-- A smallest region that shows a mark is the mark. -/
theorem eq_of_shows_mark {script : Text} {region : Region}
    (member : region ∈ lexemes script) {cell : Cell}
    (inside : cell ∈ region.cells) (mark : isMark (shown cell) = true) :
    region = ⟨.code, [shown cell]⟩ := by
  obtain ⟨neutral, noFill, noFeed⟩ := isMark_iff.mp mark
  have hidden : ∀ {fill : Char} {text : Text}, isFill fill = true →
      cell ∉ text.flatMap (veil fill) := by
    intro fill text fills known
    rcases eq_of_mem_veil known with rfl | ⟨character, -, rfl⟩ | rfl
    · exact noFeed rfl
    · exact Bool.false_ne_true (noFill.symm.trans fills)
    · exact Bool.false_ne_true (noFill.symm.trans fills)
  rcases mode_of_mem_lexemesFrom member with
    code | ⟨mode, behind, -, opens, -, equal⟩
  · obtain ⟨character, text⟩ := (isLexeme_of_mem_lexemes member).2 code
    obtain ⟨kind, text⟩ := region
    subst code text
    rw [List.mem_singleton.mp inside]
    rfl
  · rcases RegionKind.isLiteral_or_isComment opens.kind_ne_code with
      literal | comment
    · rw [equal] at inside
      rcases mem_cells_literal opens literal inside with
        ⟨character, known, rfl⟩ | known
      · have loud := isNeutral_of_mem_opening opens literal known
        exact absurd (loud.symm.trans neutral) Bool.false_ne_true
      · exact absurd known (hidden (by decide))
    · have cells : region.cells = region.text.flatMap (veil ' ') := by
        rw [equal]
        cases mode with
        | lineComment => rfl
        | blockComment => rfl
        | _ => cases comment
      rw [cells] at inside
      exact absurd inside (hidden (by decide))

/-! ## Regions that others follow -/

/--
Regions that others follow.  What one of them opens ends in it, and no quote
of code is among them, since it would have opened a string.
-/
inductive AreFollowed : List Region → Prop where
  | nil : AreFollowed []
  | code {character : Char} {others : List Region}
      (noQuote : character ≠ '\'' ∧ character ≠ '"')
      (behind : AreFollowed others) :
      AreFollowed (⟨.code, [character]⟩ :: others)
  | special {mode : Mode} {inside rest : Text} {others : List Region}
      (opens : mode.Opens) (cut : mode.remainder inside ++ rest = inside)
      (goesOn : rest ≠ []) (behind : AreFollowed others) :
      AreFollowed (⟨mode.kind, mode.opening ++ mode.remainder inside⟩ :: others)

theorem areFollowed_of_append {afterName : Bool} {text : Text}
    {first second : List Region}
    (parts : lexemesFrom 0 afterName text = first ++ second)
    (goesOn : second ≠ []) : AreFollowed first := by
  induction afterName, text using lexemeInduction generalizing first with
  | nil afterName =>
      rw [(List.append_eq_nil_iff.mp parts.symm).1]
      exact .nil
  | code afterName character rest absent ih =>
      cases first with
      | nil => exact .nil
      | cons region others =>
          rw [lexemesFrom_code absent] at parts
          obtain ⟨rfl, later⟩ := List.cons.inj parts
          refine .code ?_ (ih later)
          constructor <;>
            · rintro rfl
              cases absent
  | special afterName region rest found ih =>
      cases first with
      | nil => exact .nil
      | cons same others =>
          rw [lexemesFrom_special found] at parts
          obtain ⟨rfl, later⟩ := List.cons.inj parts
          have goesOnToo : rest ≠ [] := by
            rintro rfl
            exact goesOn (List.append_eq_nil_iff.mp later.symm).2
          obtain ⟨mode, inside, -, opens, cut, equal⟩ :=
            special?_append_eq_some found
          rw [equal]
          exact .special opens cut goesOnToo (ih later)

theorem areFollowed_between {script : Text} {opening closing : Region}
    {first middle last : List Region}
    (parts : lexemes script = first ++ opening :: (middle ++ closing :: last)) :
    AreFollowed middle := by
  rw [lexemes, List.append_cons] at parts
  exact areFollowed_of_append (lexemesFrom_of_eq_append parts)
    (List.cons_ne_nil _ _)

/-! ## Parting -/

/-- Cutting the cells of regions at a mark cuts between the regions. -/
theorem exists_regions_of_mark {regions : List Region}
    (single : ∀ region ∈ regions, ∀ cell ∈ region.cells,
      isMark (shown cell) = true → region = ⟨.code, [shown cell]⟩)
    {before after : List Cell} {cell : Cell} (mark : isMark (shown cell) = true)
    (parts : regions.flatMap Region.cells = before ++ cell :: after) :
    ∃ first second, regions = first ++ ⟨.code, [shown cell]⟩ :: second ∧
      first.flatMap Region.cells = before ∧
      second.flatMap Region.cells = after := by
  induction regions generalizing before with
  | nil => cases before <;> cases parts
  | cons region others ih =>
      rw [List.forall_mem_cons] at single
      rw [List.flatMap_cons] at parts
      rcases List.append_eq_append_iff.mp parts with
        ⟨between, rfl, rest⟩ | ⟨between, whole, rest⟩
      · obtain ⟨first, second, rfl, rfl, rfl⟩ := ih single.2 rest
        exact ⟨region :: first, second, rfl, rfl, rfl⟩
      · cases between with
        | nil =>
            obtain ⟨first, second, rfl, nothing, rfl⟩ :=
              ih single.2
                (show others.flatMap Region.cells = [] ++ cell :: after from
                  rest.symm)
            rw [List.append_nil] at whole
            refine ⟨region :: first, second, rfl, ?_, rfl⟩
            rw [List.flatMap_cons, nothing, List.append_nil, whole]
        | cons next between =>
            obtain ⟨rfl, tail⟩ := List.cons.inj rest
            have inside : cell ∈ region.cells := by
              rw [whole]
              exact List.mem_append_right _ List.mem_cons_self
            have same := single.1 cell inside mark
            rw [same] at whole
            -- The region is one character, so nothing stands beside the mark.
            have alone : before = [] ∧ between = [] := by
              have sizes := congrArg List.length whole
              rw [List.length_append, List.length_cons] at sizes
              change 1 = _ at sizes
              constructor
              · exact List.eq_nil_of_length_eq_zero (by omega)
              · exact List.eq_nil_of_length_eq_zero (by omega)
            obtain ⟨rfl, rfl⟩ := alone
            exact ⟨[], others, by rw [same]; rfl, rfl, tail.symm⟩

theorem exists_lexemes_of_mark {script : Text} {before after : List Cell}
    {cell : Cell} (mark : isMark (shown cell) = true)
    (parts : cells script = before ++ cell :: after) :
    ∃ first second, lexemes script = first ++ ⟨.code, [shown cell]⟩ :: second ∧
      first.flatMap Region.cells = before ∧
      second.flatMap Region.cells = after :=
  exists_regions_of_mark
    (fun _ member _ inside known => eq_of_shows_mark member inside known)
    mark parts

/-- What stands between two marks is cut alone as it is in the script. -/
theorem lexemes_textOf_between {script : Text} {opening closing : Char}
    (opens : isMark opening = true) (closes : isMark closing = true)
    {first inside second : List Region}
    (parts : lexemes script =
      first ++ ⟨.code, [opening]⟩ :: (inside ++ ⟨.code, [closing]⟩ :: second)) :
    lexemes (textOf inside) = inside := by
  have quiet : continuesName opening = false :=
    continuesName_of_isNeutral (isMark_iff.mp opens).1
  have alone : lexemesFrom 0 false
      (textOf inside ++ closing :: textOf second) =
        inside ++ ⟨.code, [closing]⟩ :: second := by
    have cut := parts
    rw [lexemes, List.append_cons] at cut
    have known := lexemesFrom_of_eq_append cut
    rw [textOf_append, nameBehind_append] at known
    change lexemesFrom 0 (continuesName opening) _ = _ at known
    rw [quiet, textOf_append] at known
    exact known
  obtain ⟨neutral, -, noFeed⟩ := isMark_iff.mp closes
  exact lexemesFrom_of_boundary neutral noFeed alone

/-- The regions of what stands between parentheses, and of what follows. -/
theorem exists_lexemes_of_parenthesised? {script : Text}
    {before list inside tail : List Cell} (parts : cells script = before ++ list)
    (found : parenthesised? list = some (inside, tail)) :
    ∃ first middle last,
      lexemes script = first ++ ⟨.code, ['(']⟩ ::
        (middle ++ ⟨.code, [')']⟩ :: last) ∧
      middle.flatMap Region.cells = inside ∧
      last.flatMap Region.cells = tail := by
  obtain ⟨opening, closing, rfl, opens, closes⟩ := exists_parentheses found
  obtain ⟨first, others, cut, -, behind⟩ :=
    exists_lexemes_of_mark (by rw [opens]; decide) parts
  have members : ∀ region ∈ others, region ∈ lexemes script := by
    intro region member
    rw [cut]
    exact List.mem_append_right _ (List.mem_cons_of_mem _ member)
  obtain ⟨middle, last, rfl, between, tailing⟩ :=
    exists_regions_of_mark (fun region member _ inside mark =>
      eq_of_shows_mark (members region member) inside mark)
      (by rw [closes]; decide) behind
  rw [opens, closes] at cut
  exact ⟨first, middle, last, cut, between, tailing⟩

end Lexical

end Snowform
