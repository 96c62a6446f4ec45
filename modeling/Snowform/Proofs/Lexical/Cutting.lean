import Snowform.Proofs.Lexical.Gaps
import Snowform.Proofs.Lexical.Parting

/-!
# Cutting a script

A masked script is cut between two regions or inside of one.  Where its final
blanks start, that can only be among the line feeds of a literal that is never
closed.  Otherwise comments and blanks of code stand behind the cut.

What stands in front of a cut between regions is cut into the same regions,
whatever neutral character takes the place of what stands behind it, unless
its last region is a comment.
-/

namespace Snowform

open Text Lexical

theorem Region.cells_ne_nil {region : Region} (nonempty : region.text ≠ []) :
    region.cells ≠ [] := by
  intro nothing
  have source := source?_region region
  rw [nothing] at source
  exact nonempty (Option.some.inj source).symm

/-! ## Comments and literals that are found again -/

namespace Mode

/-- A comment that ends is found again in front of what starts the same. -/
theorem remainder_comment_again {mode : Mode}
    (comment : mode.kind.isComment = true) {text rest behind : Text}
    (parts : mode.remainder text ++ rest = text) (goesOn : rest ≠ [])
    (same : behind.head? = rest.head?) :
    mode.remainder (mode.remainder text ++ behind) = mode.remainder text := by
  cases mode with
  | lineComment =>
      have whole := List.takeWhile_append_dropWhile
        (p := (· != '\n')) (l := text)
      have dropped : rest = text.dropWhile (· != '\n') :=
        List.append_cancel_left (parts.trans whole.symm)
      obtain ⟨first, others, rfl⟩ := List.exists_cons_of_ne_nil goesOn
      have stops := List.head?_dropWhile_not (· != '\n') text
      rw [← dropped] at stops
      obtain ⟨further, rfl⟩ := List.head?_eq_some_iff.mp same
      have content : ∀ character ∈ text.takeWhile (· != '\n'),
          (character != '\n') = true :=
        fun character member =>
          List.mem_takeWhile_imp (p := (· != '\n')) member
      have feed : ¬ (first != '\n') = true := by simpa using stops
      rw [remainder, remainder, List.takeWhile_append_of_pos content,
        List.takeWhile_cons_of_neg (p := (· != '\n')) feed, List.append_nil]
  | blockComment =>
      exact upThrough_again (List.cons_ne_nil _ _) parts
        fun empty => absurd empty goesOn
  | _ => cases comment

theorem MayFollow.of_head?_eq {mode : Mode} {rest behind : Text}
    (follows : mode.MayFollow rest) (same : behind.head? = rest.head?) :
    mode.MayFollow behind := by
  cases mode <;> simp_all [MayFollow]

theorem mayFollow_of_startsNeutral (mode : Mode) {rest : Text}
    (neutral : StartsNeutral rest) : mode.MayFollow rest := by
  cases mode with
  | singleQuote => exact neutral.head_ne (by decide)
  | doubleQuote => exact neutral.head_ne (by decide)
  | _ => trivial

theorem openedBy?_of_append {afterName : Bool} {text rest : Text}
    (absent : openedBy? afterName (text ++ rest) = none) :
    openedBy? afterName text = none := by
  rw [Option.eq_none_iff_forall_ne_some]
  intro mode opened
  obtain ⟨-, inside, rfl⟩ := openedBy?_spec opened
  have again := openedBy?_opening opened (inside ++ rest)
  rw [← List.append_assoc, absent] at again
  cases again

end Mode

namespace Lexical

theorem special?_eq_none_iff {afterName : Bool} {text : Text} :
    special? afterName text = none ↔ Mode.openedBy? afterName text = none := by
  rw [special?_eq, Option.map_eq_none_iff]

/-- A region that others follow is found again in front of what starts alike. -/
theorem special?_again {afterName : Bool} {region : Region} {rest : Text}
    (found : special? afterName (region.text ++ rest) = some region)
    (goesOn : rest ≠ []) {behind : Text}
    (alike : behind.head? = rest.head? ∨
      region.kind.isComment = false ∧ StartsNeutral behind) :
    special? afterName (region.text ++ behind) = some region := by
  obtain ⟨mode, inside, opened, opens, cut, rfl⟩ :=
    special?_append_eq_some found
  rcases RegionKind.isLiteral_or_isComment opens.kind_ne_code with
    literal | comment
  · refine (Mode.foundAgain_self opens literal cut).again opened ?_
      fun empty => absurd empty goesOn
    intro follows
    rcases alike with same | ⟨-, neutral⟩
    · exact follows.of_head?_eq same
    · exact mode.mayFollow_of_startsNeutral neutral
  · have same : behind.head? = rest.head? :=
      alike.resolve_right fun other =>
        absurd (comment.symm.trans other.1) (by decide)
    rw [special?_eq, List.append_assoc, Mode.openedBy?_opening opened,
      Option.map_some, Mode.region, List.drop_left,
      Mode.remainder_comment_again comment cut goesOn same]

/-- A character of code is one again in front of a neutral character. -/
theorem special?_eq_none_again {afterName : Bool} {character : Char}
    {front rest behind : Text}
    (absent : special? afterName (character :: (front ++ rest)) = none)
    (neutral : StartsNeutral behind) :
    special? afterName (character :: (front ++ behind)) = none := by
  rw [special?_eq_none_iff, ← List.cons_append] at absent ⊢
  rw [Mode.openedBy?_append (List.cons_ne_nil _ _) neutral]
  exact Mode.openedBy?_of_append absent

/--
Regions that others follow are found again in front of a neutral character,
unless the last of them is a comment.
-/
theorem lexemesFrom_exchange {afterName : Bool} {text : Text}
    {first second : List Region}
    (parts : lexemesFrom 0 afterName text = first ++ second)
    (goesOn : second ≠ [])
    (noComment : ∀ last ∈ first.getLast?, last.kind.isComment = false)
    {rest : Text} (neutral : StartsNeutral rest) :
    lexemesFrom 0 afterName (textOf first ++ rest) =
      first ++ lexemesFrom 0 (nameBehind afterName (textOf first)) rest := by
  induction afterName, text using lexemeInduction generalizing first with
  | nil afterName =>
      obtain ⟨rfl, rfl⟩ := List.append_eq_nil_iff.mp parts.symm
      exact absurd rfl goesOn
  | code afterName character text absent ih =>
      cases first with
      | nil => rfl
      | cons region others =>
          rw [lexemesFrom_code absent, List.cons_append] at parts
          obtain ⟨rfl, later⟩ := List.cons.inj parts
          have whole : text = textOf others ++ textOf second := by
            rw [← textOf_append, ← later, textOf_lexemesFrom]
          rw [whole] at absent
          have again := lexemesFrom_code (special?_eq_none_again absent neutral)
          rw [ih later fun last isLast =>
            noComment last (List.mem_getLast?_cons isLast)] at again
          exact again
  | special afterName region text found ih =>
      cases first with
      | nil => rfl
      | cons same others =>
          rw [lexemesFrom_special found, List.cons_append] at parts
          obtain ⟨rfl, later⟩ := List.cons.inj parts
          have nonempty : text ≠ [] := by
            rintro rfl
            exact goesOn (List.append_eq_nil_iff.mp later.symm).2
          have whole : text = textOf others ++ textOf second := by
            rw [← textOf_append, ← later, textOf_lexemesFrom]
          have alike : (textOf others ++ rest).head? = text.head? ∨
              region.kind.isComment = false ∧
                StartsNeutral (textOf others ++ rest) := by
            cases others with
            | nil => exact .inr ⟨noComment region rfl, neutral⟩
            | cons next further =>
                have member : next ∈
                    lexemesFrom 0 (nameBehind afterName region.text) text := by
                  rw [later]
                  exact List.mem_cons_self
                obtain ⟨first, more, starts⟩ := List.exists_cons_of_ne_nil
                  (isLexeme_of_mem_lexemesFrom _ _ next member).1
                rw [whole, textOf_cons, starts]
                exact .inl rfl
          have again := lexemesFrom_special
            (special?_again found nonempty alike)
          rw [ih later fun last isLast =>
            noComment last (List.mem_getLast?_cons isLast)] at again
          rw [textOf_cons, List.append_assoc, again, nameBehind_append]
          rfl

/-! ## Cuts -/

/-- A masked script is cut between two regions or inside of one. -/
theorem exists_cut {regions : List Region} {before after : List Cell}
    (parts : regions.flatMap Region.cells = before ++ after) :
    (∃ first second, regions = first ++ second ∧
      first.flatMap Region.cells = before ∧
      second.flatMap Region.cells = after) ∨
    ∃ first region second part rest, regions = first ++ region :: second ∧
      region.cells = part ++ rest ∧ part ≠ [] ∧ rest ≠ [] ∧
      before = first.flatMap Region.cells ++ part ∧
      after = rest ++ second.flatMap Region.cells := by
  induction regions generalizing before with
  | nil =>
      obtain ⟨rfl, rfl⟩ := List.append_eq_nil_iff.mp parts.symm
      exact .inl ⟨[], [], rfl, rfl, rfl⟩
  | cons region others ih =>
      rw [List.flatMap_cons] at parts
      rcases List.append_eq_append_iff.mp parts with
        ⟨between, rfl, later⟩ | ⟨between, whole, rfl⟩
      · rcases ih later with
          ⟨first, second, rfl, rfl, rfl⟩ |
          ⟨first, inner, second, part, rest, rfl, cells, some, more, rfl, rfl⟩
        · exact .inl ⟨region :: first, second, rfl, rfl, rfl⟩
        · refine .inr ⟨region :: first, inner, second, part, rest, rfl, cells,
            some, more, ?_, rfl⟩
          rw [List.flatMap_cons, List.append_assoc]
      · by_cases nothing : before = []
        · refine .inl ⟨[], region :: others, rfl, nothing.symm, ?_⟩
          rw [List.flatMap_cons, whole, nothing, List.nil_append]
        · by_cases all : between = []
          · refine .inl ⟨[region], others, rfl, ?_, ?_⟩
            · rw [List.flatMap_singleton, whole, all, List.append_nil]
            · rw [all, List.nil_append]
          · exact .inr ⟨[], region, others, before, between, rfl, whole,
              nothing, all, rfl, rfl⟩

/-- Of a literal only line feeds are shown as blanks. -/
theorem eq_feed_of_isBlank {mode : Mode} (opens : mode.Opens)
    (literal : mode.kind.isLiteral = true) {text : Text} {cell : Cell}
    (member : cell ∈
      (⟨mode.kind, mode.opening ++ mode.remainder text⟩ : Region).cells)
    (blank : isBlank (shown cell) = true) : cell = .plain '\n' := by
  have line : isBlank '_' = false := by decide
  rcases mem_cells_literal opens literal member with
    ⟨character, known, rfl⟩ | hidden
  · have loud := isNeutral_of_mem_opening opens literal known
    exact absurd (loud.symm.trans (isNeutral_of_isBlank blank)) (by decide)
  · rcases eq_of_mem_veil hidden with rfl | ⟨character, -, rfl⟩ | rfl
    · rfl
    · exact absurd (line.symm.trans blank) (by decide)
    · exact absurd (line.symm.trans blank) (by decide)

theorem eq_nil_of_lexemesFrom {afterName : Bool} {text : Text}
    {first second : List Region}
    (parts : lexemesFrom 0 afterName text = first ++ second)
    (nothing : textOf second = []) : second = [] := by
  refine eq_nil_of_textOf_eq_nil (fun region member => ?_) nothing
  have known := List.mem_append_right first member
  rw [← parts] at known
  exact (isLexeme_of_mem_lexemesFrom _ _ region known).1

/-- A region is a character of code, or an opening and what closes it. -/
theorem mode_of_eq_cons {afterName : Bool} {text : Text} {region : Region}
    {others : List Region}
    (parts : lexemesFrom 0 afterName text = region :: others) :
    (∃ character, region = ⟨.code, [character]⟩) ∨
      ∃ (mode : Mode) (inside : Text), mode.Opens ∧
        mode.remainder inside ++ textOf others = inside ∧
        region = ⟨mode.kind, mode.opening ++ mode.remainder inside⟩ := by
  have behind := textOf_lexemesFrom afterName text
  rw [parts, textOf_cons] at behind
  cases found : special? afterName text with
  | none =>
      cases text with
      | nil => cases parts
      | cons character rest =>
          rw [lexemesFrom_code found] at parts
          exact .inl ⟨character, (List.cons.inj parts).1.symm⟩
  | some first =>
      obtain ⟨⟨rest, rfl⟩, -⟩ := special?_spec found
      rw [lexemesFrom_special found] at parts
      obtain ⟨rfl, -⟩ := List.cons.inj parts
      rw [← behind] at found
      obtain ⟨mode, inside, -, opens, cut, equal⟩ :=
        special?_append_eq_some found
      exact .inr ⟨mode, inside, opens, cut, equal⟩

/-- A region that is cut is opened by a mode: a character of code is one cell. -/
theorem mode_of_cut {afterName : Bool} {text : Text} {region : Region}
    {others : List Region}
    (parts : lexemesFrom 0 afterName text = region :: others)
    {part rest : List Cell} (cut : region.cells = part ++ rest)
    (before : part ≠ []) (behind : rest ≠ []) :
    ∃ (mode : Mode) (inside : Text), mode.Opens ∧
      mode.remainder inside ++ textOf others = inside ∧
      region = ⟨mode.kind, mode.opening ++ mode.remainder inside⟩ := by
  rcases mode_of_eq_cons parts with ⟨character, rfl⟩ | opened
  · have size := congrArg List.length cut
    rw [List.length_append] at size
    have one := List.length_pos_iff.mpr before
    have two := List.length_pos_iff.mpr behind
    change 1 = _ at size
    omega
  · exact opened

/-- A literal that shows a blank at its end: it is never closed. -/
def IsOpenLiteral (region : Region) : Prop :=
  region.kind.isLiteral = true ∧
    ∃ last ∈ region.cells.getLast?, isBlank (shown last) = true

/-- A region that shows nothing but blanks is a comment, or blank code. -/
theorem isTrivial_of_blank {script : Text} {region : Region}
    (member : region ∈ lexemes script)
    (blank : ∀ cell ∈ region.cells, isBlank (shown cell) = true) :
    region.IsTrivial := by
  rcases mode_of_mem_lexemesFrom member with
    code | ⟨mode, inside, -, opens, -, equal⟩
  · refine .inr ⟨code, fun character known => ?_⟩
    rw [Region.cells, code] at blank
    exact blank _ (List.mem_map_of_mem known)
  · rcases RegionKind.isLiteral_or_isComment opens.kind_ne_code with
      literal | comment
    · obtain ⟨hidden, closing, -, -, cells⟩ :=
        exists_cells_literal opens literal inside
      obtain ⟨first, others, opening⟩ :=
        List.exists_cons_of_ne_nil opens.opening_ne_nil
      rw [equal, cells, opening] at blank
      have neutral : isNeutral first = true :=
        isNeutral_of_isBlank (blank (.plain first) List.mem_cons_self)
      have loud := isNeutral_of_mem_opening opens literal
        (opening ▸ List.mem_cons_self : first ∈ mode.opening)
      exact absurd (loud.symm.trans neutral) (by decide)
    · rw [equal]
      exact .inl comment

/-- A literal that is closed ends with its delimiter. -/
theorem last_of_literal {mode : Mode} (opens : mode.Opens)
    (literal : mode.kind.isLiteral = true) {inside : Text}
    (closed : mode.opening <:+ mode.remainder inside) :
    ∃ last ∈ (⟨mode.kind, mode.opening ++ mode.remainder inside⟩ :
      Region).cells.getLast?, endsDelimiter (shown last) = true := by
  obtain ⟨hidden, closing, -, ending, cells⟩ :=
    exists_cells_literal opens literal inside
  have same : closing = mode.opening :=
    ending.resolve_right fun unclosed => unclosed.2 closed
  obtain ⟨others, last, opening, ends⟩ := exists_opening_eq_concat literal
  refine ⟨.plain last, ?_, ends⟩
  rw [cells, same, opening, List.map_append, ← List.append_assoc,
    ← List.append_assoc]
  exact List.getLast?_concat

/-- A literal that shows a blank at its end is the last region. -/
theorem eq_nil_of_blank_end {afterName : Bool} {text : Text} {mode : Mode}
    {inside : Text} {others : List Region} (opens : mode.Opens)
    (literal : mode.kind.isLiteral = true)
    (parts : lexemesFrom 0 afterName text =
      ⟨mode.kind, mode.opening ++ mode.remainder inside⟩ :: others)
    (closes : mode.remainder inside ++ textOf others = inside) {last : Cell}
    (isLast : (⟨mode.kind, mode.opening ++ mode.remainder inside⟩ :
      Region).cells.getLast? = some last)
    (blank : isBlank (shown last) = true) : others = [] := by
  have unclosed : ¬ mode.opening <:+ mode.remainder inside := by
    intro closed
    obtain ⟨delimiter, ending, seen⟩ := last_of_literal opens literal closed
    rw [isLast] at ending
    cases ending
    rw [endsDelimiter_of_isBlank blank] at seen
    cases seen
  have nothing : textOf others = [] :=
    (Mode.remainder_closes literal closes).resolve_right
      fun closed => unclosed closed.1
  exact @eq_nil_of_lexemesFrom _ _ [_] _ parts nothing

/--
Final blanks of a masked script are comments and blanks of code, unless they
are line feeds of a literal that is never closed.
-/
theorem regions_of_final_blanks {script : Text} {earlier blanks : List Cell}
    (parts : cells script = earlier ++ blanks)
    (visible : ∀ last ∈ earlier.getLast?, isBlank (shown last) = false)
    (blank : ∀ cell ∈ blanks, isBlank (shown cell) = true) :
    (∃ kept others, lexemes script = kept ++ others ∧
      kept.flatMap Region.cells = earlier ∧
      others.flatMap Region.cells = blanks ∧
      ∀ region ∈ others, region.IsTrivial) ∨
    (∃ done literal, lexemes script = done ++ [literal] ∧
      IsOpenLiteral literal ∧ ∀ cell ∈ blanks, cell = .plain '\n') := by
  rcases exists_cut parts with
    ⟨kept, others, whole, shownEarlier, rfl⟩ |
    ⟨first, region, second, part, rest, whole, cut, before, behind, rfl, rfl⟩
  · refine .inl ⟨kept, others, whole, shownEarlier, rfl, ?_⟩
    intro region member
    have known := List.mem_append_right kept member
    rw [← whole] at known
    exact isTrivial_of_blank known fun cell inside =>
      blank cell (List.mem_flatMap.mpr ⟨region, member, inside⟩)
  · have parts := lexemesFrom_of_eq_append whole
    obtain ⟨mode, inside, opens, closes, rfl⟩ :=
      mode_of_cut parts cut before behind
    rcases RegionKind.isLiteral_or_isComment opens.kind_ne_code with
      literal | comment
    · have lastBlank := blank _
        (List.mem_append_left (second.flatMap Region.cells)
          (List.getLast_mem behind))
      have isLast : (⟨mode.kind, mode.opening ++ mode.remainder inside⟩ :
          Region).cells.getLast? = some (rest.getLast behind) := by
        rw [cut, List.getLast?_append, List.getLast?_eq_some_getLast behind]
        rfl
      obtain rfl :=
        eq_nil_of_blank_end opens literal parts closes isLast lastBlank
      refine .inr ⟨first, _, whole, ⟨literal, _, isLast, lastBlank⟩,
        fun cell member => ?_⟩
      have isBlank := blank cell member
      rw [List.flatMap_nil, List.append_nil] at member
      have known := List.mem_append_right part member
      rw [← cut] at known
      exact eq_feed_of_isBlank opens literal known isBlank
    · -- What is in front of a cut in a comment shows a blank.
      have known := List.mem_append_left rest (List.getLast_mem before)
      rw [← cut] at known
      have trivial : (⟨mode.kind, mode.opening ++ mode.remainder inside⟩ :
        Region).IsTrivial := .inl comment
      have hidden := trivial.isBlank_shown known
      have isLast := List.getLast?_eq_some_getLast before
      rw [visible _ (by rw [List.getLast?_append, isLast]; rfl)] at hidden
      cases hidden

end Lexical

end Snowform
