import Snowform.Ddl.Listing
import Snowform.Proofs.Lexical.Parentheses
import Snowform.Proofs.Lexical.Showing
import Snowform.Proofs.Text.Respacing
import Snowform.Proofs.Text.Trimming

/-!
# Texts with gaps of two widths

Two texts may differ in the blanks of some gaps only.  `Mark` lists what they
have in common, letter by letter, and the two fillings of every gap;
`rendered` gives the one text or the other.

A reader that treats all blanks alike finds the same in both: what it does
with the texts it does with their marks, before they are rendered.
-/

namespace Snowform

open Text Lexical

namespace Text

/-- Blanks, of which there is at least one. -/
structure Blanks where
  text : Text
  nonempty : text ≠ []
  blank : ∀ character ∈ text, isBlank character = true

/-- What two texts have at a place: a common character or a gap in each. -/
inductive Mark where
  | letter (character : Char)
  | gap (narrow wide : Blanks)

/-- Which filling of the gaps is meant. -/
inductive Width where
  | narrow
  | wide

namespace Mark

def text (width : Width) : Mark → Text
  | .letter character => [character]
  | .gap narrow wide =>
      match width with
      | .narrow => narrow.text
      | .wide => wide.text

/-- A gap shows a blank. -/
instance : Shown Mark where
  shown
    | .letter character => character
    | .gap _ _ => ' '

@[simp]
theorem shown_letter (character : Char) :
    shown (Mark.letter character) = character := rfl

@[simp]
theorem shown_gap (narrow wide : Blanks) :
    shown (Mark.gap narrow wide) = ' ' := rfl

end Mark

/-- One of the two texts that marks stand for. -/
def rendered (width : Width) (marks : List Mark) : Text :=
  marks.flatMap (Mark.text width)

section Rendering

variable (width : Width)

@[simp]
theorem rendered_nil : rendered width [] = [] := rfl

@[simp]
theorem rendered_letter (character : Char) (rest : List Mark) :
    rendered width (.letter character :: rest) =
      character :: rendered width rest := rfl

@[simp]
theorem rendered_append (first second : List Mark) :
    rendered width (first ++ second) =
      rendered width first ++ rendered width second :=
  List.flatMap_append

/-- A gap is rendered as blanks. -/
theorem exists_rendered_gap (narrow wide : Blanks) :
    ∃ blanks : Blanks, ∀ rest, rendered width (.gap narrow wide :: rest) =
      blanks.text ++ rendered width rest := by
  cases width with
  | narrow => exact ⟨narrow, fun _ => rfl⟩
  | wide => exact ⟨wide, fun _ => rfl⟩

theorem exists_rendered_gap_cons (narrow wide : Blanks) :
    ∃ first others, isBlank first = true ∧
      ∀ rest, rendered width (.gap narrow wide :: rest) =
        first :: (others ++ rendered width rest) := by
  obtain ⟨blanks, renders⟩ := exists_rendered_gap width narrow wide
  obtain ⟨first, others, same⟩ := List.exists_cons_of_ne_nil blanks.nonempty
  refine ⟨first, others, ?_, fun rest => ?_⟩
  · apply blanks.blank
    rw [same]
    exact List.mem_cons_self
  · rw [renders, same, List.cons_append]

/-- Only no marks are written as nothing, as a gap has at least one blank. -/
theorem rendered_eq_nil_iff {marks : List Mark} :
    rendered width marks = [] ↔ marks = [] := by
  cases marks with
  | nil => simp
  | cons mark rest =>
      cases mark with
      | letter character => simp
      | gap narrow wide =>
          obtain ⟨blanks, renders⟩ := exists_rendered_gap width narrow wide
          simp [renders, blanks.nonempty]

/-- Letters alone are written alike in any width. -/
theorem rendered_letters (text : Text) :
    rendered width (text.map .letter) = text := by
  induction text with
  | nil => rfl
  | cons character rest ih =>
      rw [List.map_cons, rendered_letter, ih]

/-- Marks of which the first is a gap, if there is one. -/
def StartsWithGap : List Mark → Prop
  | [] => True
  | .letter _ :: _ => False
  | .gap _ _ :: _ => True

/-- What starts with a gap starts with a blank. -/
theorem StartsWithGap.isBlank_head {marks : List Mark}
    (starts : StartsWithGap marks) :
    ∀ character ∈ (rendered width marks).head?, isBlank character = true := by
  intro character first
  cases marks with
  | nil => cases first
  | cons mark rest =>
      cases mark with
      | letter other => exact starts.elim
      | gap narrow wide =>
          obtain ⟨blanks, renders⟩ := exists_rendered_gap width narrow wide
          rw [renders, List.head?_append_of_ne_nil _ blanks.nonempty] at first
          exact blanks.blank character (List.mem_of_mem_head? first)

/-- Marks start with a visible character only where that is a letter. -/
theorem head?_rendered_ne {expected : Char}
    (visible : isBlank expected = false) {marks : List Mark}
    (other : marks.head? ≠ some (.letter expected)) :
    (rendered width marks).head? ≠ some expected := by
  intro first
  cases marks with
  | nil => cases first
  | cons mark rest =>
      cases mark with
      | letter character =>
          cases first
          exact other rfl
      | gap narrow wide =>
          have starts : StartsWithGap (.gap narrow wide :: rest) := trivial
          have blank := starts.isBlank_head width expected first
          rw [visible] at blank
          cases blank

end Rendering

/-- Marks are letters up to their first gap. -/
theorem exists_letters (marks : List Mark) :
    ∃ (text : Text) (rest : List Mark),
      marks = text.map .letter ++ rest ∧ StartsWithGap rest := by
  induction marks with
  | nil => exact ⟨[], [], rfl, trivial⟩
  | cons mark rest ih =>
      cases mark with
      | gap narrow wide => exact ⟨[], _, rfl, trivial⟩
      | letter character =>
          obtain ⟨text, others, rfl, starts⟩ := ih
          exact ⟨character :: text, others, rfl, starts⟩

/-! ## Tests -/

/-- A test that no blank stands out in. -/
def IsEven (test : Char → Bool) : Prop :=
  ∀ character, isBlank character = true → test character = test ' '

section Tests

variable {test : Char → Bool} (even : IsEven test) (width : Width)

include even

/-- A test that takes all blanks for one takes those of a gap for one. -/
theorem Blanks.all_eq (blanks : Blanks) :
    ∀ character ∈ blanks.text, test character = test ' ' :=
  fun character member => even character (blanks.blank character member)

/-- The first character is tested alike in any width. -/
theorem startsWith_rendered (marks : List Mark) :
    startsWith test (rendered width marks) = startsWith test marks := by
  cases marks with
  | nil => rfl
  | cons mark rest =>
      cases mark with
      | letter character => rfl
      | gap narrow wide =>
          obtain ⟨first, others, blank, renders⟩ :=
            exists_rendered_gap_cons width narrow wide
          rw [renders]
          exact even first blank

/-- The same marks are dropped in any width. -/
theorem dropWhile_rendered (marks : List Mark) :
    (rendered width marks).dropWhile test =
      rendered width (marks.dropWhile (shows test)) := by
  induction marks with
  | nil => rfl
  | cons mark rest ih =>
      cases mark with
      | letter character =>
          rw [rendered_letter, List.dropWhile_cons, List.dropWhile_cons, ih]
          change (if test character = true then _ else _) =
            rendered width (if test character = true then _ else _)
          split <;> rfl
      | gap narrow wide =>
          obtain ⟨blanks, renders⟩ := exists_rendered_gap width narrow wide
          have known := blanks.all_eq even
          cases here : test ' ' with
          | true =>
              rw [here] at known
              rw [renders, List.dropWhile_append_of_pos known, ih,
                List.dropWhile_cons_of_pos (by exact here)]
          | false =>
              obtain ⟨first, others, same⟩ :=
                List.exists_cons_of_ne_nil blanks.nonempty
              rw [here, same, List.forall_mem_cons] at known
              rw [List.dropWhile_cons_of_neg (by
                change ¬ test ' ' = true
                rw [here]
                exact Bool.false_ne_true), renders, same, List.cons_append,
                List.dropWhile_cons_of_neg (Bool.eq_false_iff.mp known.1)]

/-- The same marks are taken in any width. -/
theorem takeWhile_rendered (marks : List Mark) :
    (rendered width marks).takeWhile test =
      rendered width (marks.takeWhile (shows test)) := by
  have whole := List.takeWhile_append_dropWhile
    (p := shows test) (l := marks)
  have parts : (rendered width marks).takeWhile test ++
      (rendered width marks).dropWhile test =
        rendered width (marks.takeWhile (shows test)) ++
          rendered width (marks.dropWhile (shows test)) := by
    rw [List.takeWhile_append_dropWhile, ← rendered_append, whole]
  rw [dropWhile_rendered even] at parts
  exact List.append_cancel_right parts

theorem Blanks.dropEndWhile_eq (blanks : Blanks) :
    dropEndWhile test blanks.text = if test ' ' then [] else blanks.text := by
  have known := blanks.all_eq even
  rw [dropEndWhile_eq_rdropWhile]
  split
  next drops =>
    rw [List.rdropWhile_eq_nil_iff]
    exact fun character member => (known character member).trans drops
  next keeps =>
    rw [List.rdropWhile_eq_self_iff]
    intro nonempty
    rw [known _ (List.getLast_mem nonempty)]
    exact keeps

/-- The same marks are dropped from the end in any width. -/
theorem dropEndWhile_rendered (marks : List Mark) :
    dropEndWhile test (rendered width marks) =
      rendered width (dropEndWhile (shows test) marks) := by
  induction marks with
  | nil => rfl
  | cons mark rest ih =>
      have single : dropEndWhile test (rendered width [mark]) =
          rendered width (dropEndWhile (shows test) [mark]) := by
        cases mark with
        | letter character =>
            change (if test character = true then _ else _) =
              rendered width (if test character = true then _ else _)
            split <;> rfl
        | gap narrow wide =>
            obtain ⟨blanks, renders⟩ := exists_rendered_gap width narrow wide
            rw [renders, rendered_nil, List.append_nil,
              blanks.dropEndWhile_eq even]
            change _ = rendered width (if test ' ' = true then _ else _)
            split
            · rfl
            · rw [renders, rendered_nil, List.append_nil]
      rw [← List.singleton_append, rendered_append, dropEndWhile_append,
        dropEndWhile_append, ih, single]
      simp only [rendered_eq_nil_iff]
      split
      · rfl
      · rw [rendered_append]

end Tests

theorem isEven_isBlank : IsEven isBlank := by
  intro character blank
  rw [blank]
  rfl

section Recognisers

variable (width : Width)

/-- The same gaps are skipped in any width. -/
theorem skipBlanks_rendered (marks : List Mark) :
    skipBlanks (rendered width marks) = rendered width (skipBlanks marks) :=
  dropWhile_rendered isEven_isBlank width marks

theorem blanks?_rendered (marks : List Mark) :
    blanks? (rendered width marks) =
      (blanks? marks).map (rendered width) := by
  rw [blanks?, blanks?, startsWith_rendered isEven_isBlank,
    skipBlanks_rendered]
  split <;> rfl

/-- The marks without the blanks at both ends. -/
def trimMarks (marks : List Mark) : List Mark :=
  dropEndWhile (shows isBlank) (skipBlanks marks)

/-- Trimmed marks are a part of the marks. -/
theorem isInfix_trimMarks (marks : List Mark) : trimMarks marks <:+: marks := by
  have starts : trimMarks marks <+: skipBlanks marks := by
    rw [trimMarks, dropEndWhile_eq_rdropWhile]
    exact List.rdropWhile_prefix _ _
  exact starts.isInfix.trans (List.dropWhile_suffix _).isInfix

/-- Trimming takes the same gaps off the ends in any width. -/
theorem trim_rendered (marks : List Mark) :
    trim (rendered width marks) = rendered width (trimMarks marks) := by
  rw [trim, trimStart, dropWhile_rendered isEven_isBlank, trimEnd,
    dropEndWhile_rendered isEven_isBlank]
  rfl

theorem isBlank_shown_gap (narrow wide : Blanks) :
    isBlank (shown (Mark.gap narrow wide)) = true := by
  rw [Mark.shown_gap]
  decide

/-- A blank is no letter of a keyword. -/
theorem isKeywordLetter_of_isBlank {letter character : Char}
    (capital : letter.isUpper = true) (blank : isBlank character = true) :
    isKeywordLetter letter character = false := by
  rw [Bool.eq_false_iff]
  intro same
  have notLong : character ≠ 'ſ' := by
    rintro rfl
    cases blank
  have notKelvin : character ≠ '\u212a' := by
    rintro rfl
    cases blank
  simp only [isKeywordLetter, toUpper_of_isBlank blank, notLong, notKelvin,
    beq_iff_eq, Bool.or_eq_true, Bool.and_eq_true, and_false, or_false] at same
  have bounds := toNat_of_isBlank blank
  have inside := of_decide_eq_true capital
  rw [← same] at inside
  have low : 65 ≤ character.toNat := UInt32.le_iff_toNat_le.mp inside.1
  have high : character.toNat ≤ 90 := UInt32.le_iff_toNat_le.mp inside.2
  omega

/-- A keyword is recognised in any width. -/
theorem keyword?_rendered {word : Text}
    (capitals : word.all Char.isUpper = true) (marks : List Mark) :
    keyword? word (rendered width marks) =
      (keyword? word marks).map (rendered width) := by
  induction word generalizing marks with
  | nil => rfl
  | cons letter letters ih =>
      rw [List.all_cons, Bool.and_eq_true] at capitals
      cases marks with
      | nil => rfl
      | cons mark rest =>
          cases mark with
          | letter character =>
              rw [rendered_letter, keyword?, keyword?, ih capitals.2]
              change (if isKeywordLetter letter character = true then _ else _) =
                Option.map _
                  (if isKeywordLetter letter character = true then _ else _)
              split <;> rfl
          | gap narrow wide =>
              obtain ⟨first, others, blank, renders⟩ :=
                exists_rendered_gap_cons width narrow wide
              have here := isKeywordLetter_of_isBlank capitals.1 blank
              have there : isKeywordLetter letter ' ' = false :=
                isKeywordLetter_of_isBlank capitals.1 (by decide)
              rw [renders, keyword?, keyword?]
              change (if isKeywordLetter letter first = true then _ else _) =
                Option.map _
                  (if isKeywordLetter letter ' ' = true then _ else _)
              rw [here, there]
              rfl

/-- A character other than a blank is recognised in any width. -/
theorem character?_rendered {expected : Char}
    (visible : isBlank expected = false) (marks : List Mark) :
    character? expected (rendered width marks) =
      (character? expected marks).map (rendered width) := by
  have other : ∀ character, isBlank character = true → character ≠ expected := by
    rintro character blank rfl
    rw [visible] at blank
    cases blank
  cases marks with
  | nil => rfl
  | cons mark rest =>
      cases mark with
      | letter character =>
          rw [rendered_letter, character?, character?]
          change (if character = expected then _ else _) =
            Option.map _ (if character = expected then _ else _)
          split <;> rfl
      | gap narrow wide =>
          obtain ⟨first, others, blank, renders⟩ :=
            exists_rendered_gap_cons width narrow wide
          rw [renders, character?, character?]
          change (if first = expected then _ else _) =
            Option.map _ (if ' ' = expected then _ else _)
          rw [if_neg (other first blank), if_neg (other ' ' (by decide))]
          rfl

/-! ## Parentheses -/

/-- A blank neither opens nor closes anything. -/
theorem closing?_blank {α : Type} [Shown α] {element : α}
    (blank : isBlank (shown element) = true) {quote : Option Char}
    (visible : ∀ mark ∈ quote, isBlank mark = false) (depth : Nat)
    (rest : List α) :
    closing? quote depth (element :: rest) =
      (closing? quote depth rest).map fun parts =>
        (element :: parts.1, parts.2) := by
  have other : ∀ {mark : Char}, isBlank mark = false → shown element ≠ mark := by
    rintro mark visible rfl
    rw [visible] at blank
    cases blank
  cases quote with
  | none =>
      refine closing?_plain ?_ depth rest
      simp only [List.mem_cons, List.not_mem_nil, or_false, not_or]
      exact ⟨other (by decide), other (by decide), other (by decide),
        other (by decide)⟩
  | some mark => simp [closing?, other (visible mark rfl)]

/-- Blanks are passed over in the search for a closing parenthesis. -/
theorem closing?_blanks {blanks : Text}
    (blank : ∀ character ∈ blanks, isBlank character = true)
    {quote : Option Char} (visible : ∀ mark ∈ quote, isBlank mark = false)
    (depth : Nat) (rest : Text) :
    closing? quote depth (blanks ++ rest) =
      (closing? quote depth rest).map fun parts =>
        (blanks ++ parts.1, parts.2) := by
  induction blanks with
  | nil =>
      rw [List.nil_append]
      cases closing? quote depth rest <;> rfl
  | cons character others ih =>
      rw [List.forall_mem_cons] at blank
      rw [List.cons_append, closing?_blank (by exact blank.1) visible,
        ih blank.2, Option.map_map]
      rfl

/-- Parentheses close at the same mark in any width. -/
theorem closing?_rendered {quote : Option Char}
    (visible : ∀ mark ∈ quote, isBlank mark = false) (depth : Nat)
    (marks : List Mark) :
    closing? quote depth (rendered width marks) =
      (closing? quote depth marks).map
        (Prod.map (rendered width) (rendered width)) := by
  induction marks generalizing quote depth with
  | nil => rfl
  | cons mark rest ih =>
      cases mark with
      | gap narrow wide =>
          obtain ⟨blanks, renders⟩ := exists_rendered_gap width narrow wide
          rw [renders, closing?_blanks blanks.blank visible, ih visible,
            closing?_blank (isBlank_shown_gap narrow wide) visible,
            Option.map_map, Option.map_map]
          congr 1
          funext parts
          simp only [Function.comp, Prod.map, renders]
      | letter character =>
          have keep : ∀ parts : Option (List Mark × List Mark),
              (parts.map (Prod.map (rendered width) (rendered width))).map
                  (fun parts => (character :: parts.1, parts.2)) =
                (parts.map fun parts =>
                  (Mark.letter character :: parts.1, parts.2)).map
                  (Prod.map (rendered width) (rendered width)) := by
            intro parts
            cases parts <;> rfl
          have none_ih := ih (show ∀ mark ∈ (none : Option Char),
            isBlank mark = false from fun _ absent => by cases absent)
          rw [rendered_letter]
          cases quote with
          | some mark =>
              simp only [closing?, shown_char, Mark.shown_letter, none_ih,
                ih visible, keep]
              split <;> rfl
          | none =>
              by_cases quote : character = '\'' ∨ character = '"'
              · have visibleQuote : ∀ mark ∈ some character,
                    isBlank mark = false := by
                  rintro mark ⟨⟩
                  rcases quote with rfl | rfl <;> decide
                have quoted := ih visibleQuote depth
                simp only [closing?, shown_char, Mark.shown_letter,
                  if_pos quote, quoted, keep]
              · simp only [closing?, shown_char, Mark.shown_letter,
                  if_neg quote, none_ih, keep]
                split
                · rfl
                · split
                  · cases depth <;> rfl
                  · rfl

/--
The inside of parentheses and the rest behind it are the same marks in any
width.
-/
theorem parenthesised?_rendered (marks : List Mark) :
    parenthesised? (rendered width marks) =
      (parenthesised? marks).map
        (Prod.map (rendered width) (rendered width)) := by
  rw [parenthesised?, parenthesised?, character?_rendered width (by decide)]
  cases character? '(' marks with
  | none => rfl
  | some rest => exact closing?_rendered width (by simp) 0 rest

/-! ## Pieces and words -/

/-- States in which a blank is passed over like any letter. -/
structure Passes {σ : Type} (separates : σ → Char → Bool)
    (advance : σ → Char → σ) (good : σ → Prop) : Prop where
  keeps {state : σ} (known : good state) (character : Char) :
    good (advance state character)
  quiet {state : σ} (known : good state) {character : Char}
    (blank : isBlank character = true) :
    separates state character = false ∧ advance state character = state

/-- Blanks separate no pieces. -/
theorem Passes.pieces_blanks {σ : Type} {separates : σ → Char → Bool}
    {advance : σ → Char → σ} {good : σ → Prop}
    (passes : Passes separates advance good) {state : σ} (known : good state)
    {blanks : Text} (blank : ∀ character ∈ blanks, isBlank character = true)
    (rest : Text) :
    pieces separates advance state (blanks ++ rest) =
      blanks.foldr consFirst (pieces separates advance state rest) := by
  induction blanks with
  | nil => rfl
  | cons character others ih =>
      rw [List.forall_mem_cons] at blank
      obtain ⟨stays, same⟩ := passes.quiet known blank.1
      rw [List.cons_append, pieces, stays, same, ih blank.2]
      rfl

/-- Pieces are cut at the same marks in any width. -/
theorem Passes.pieces_rendered {σ : Type} {separates : σ → Char → Bool}
    {advance : σ → Char → σ} {good : σ → Prop}
    (passes : Passes separates advance good) {state : σ} (known : good state)
    (marks : List Mark) :
    pieces separates advance state (rendered width marks) =
      (pieces (fun state mark => separates state (shown mark))
        (fun state mark => advance state (shown mark)) state marks).map
          (rendered width) := by
  induction marks generalizing state with
  | nil => rfl
  | cons mark rest ih =>
      obtain ⟨first, others, parts, -⟩ := exists_pieces_eq_cons
        (fun state mark => separates state (shown mark))
        (fun state mark => advance state (shown mark))
        (advance state (shown mark)) rest
      cases mark with
      | letter character =>
          rw [rendered_letter, pieces, pieces, ih (passes.keeps known character)]
          simp only [Mark.shown_letter] at parts ⊢
          rw [parts]
          split <;> rfl
      | gap narrow wide =>
          obtain ⟨blanks, renders⟩ := exists_rendered_gap width narrow wide
          obtain ⟨stays, same⟩ :=
            passes.quiet known (isBlank_shown_gap narrow wide)
          rw [same] at parts
          rw [renders, passes.pieces_blanks known blanks.blank, ih known, pieces,
            stays, same, parts, List.map_cons, foldr_consFirst]
          simp only [Bool.false_eq_true, if_false, consFirst, List.map_cons,
            renders]

/-- The words of a text do not depend on how wide its gaps are. -/
theorem words_rendered (other : Width) (marks : List Mark) :
    words (rendered width marks) = words (rendered other marks) := by
  have parted : ∀ {blanks : Text},
      (∀ character ∈ blanks, isBlank character = true) → blanks ≠ [] →
        ∀ before rest, words (before ++ (blanks ++ rest)) =
          words before ++ words rest := by
    intro blanks blank nonempty before rest
    obtain ⟨first, others, rfl⟩ := List.exists_cons_of_ne_nil nonempty
    rw [List.forall_mem_cons] at blank
    have skipped : words (others ++ rest) = words rest := by
      have known := blank.2
      clear blank nonempty
      induction others with
      | nil => rfl
      | cons character others ih =>
          rw [List.forall_mem_cons] at known
          rw [List.cons_append, words_cons_blank known.1, ih known.2]
    rw [List.cons_append, words_append_blank blank.1, skipped]
  suffices grown : ∀ before, words (before ++ rendered width marks) =
      words (before ++ rendered other marks) from grown []
  induction marks with
  | nil => intro before; rfl
  | cons mark rest ih =>
      intro before
      cases mark with
      | letter character =>
          rw [rendered_letter, rendered_letter, List.append_cons,
            List.append_cons _ _ (rendered other rest), ih]
      | gap narrow wide =>
          obtain ⟨blanks, renders⟩ := exists_rendered_gap width narrow wide
          obtain ⟨further, rendersToo⟩ := exists_rendered_gap other narrow wide
          rw [renders, rendersToo, parted blanks.blank blanks.nonempty,
            parted further.blank further.nonempty]
          exact congrArg (words before ++ ·) (ih [])

end Recognisers

end Text

end Snowform
