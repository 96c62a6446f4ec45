import Snowform.Hcl.TemplateParts
import Snowform.Text.Word
import Mathlib.Logic.Basic

/-!
# Reading templates

Which part a template starts with is told from its first two or three
characters: a sign alone stands for itself, in front of a brace it opens what
is evaluated, and doubled in front of a brace it stands for sign and brace.
-/

namespace Snowform.Hcl

open Text

/-! ## Parts -/

/-- A sign that opens an expression or a directive. -/
def isSign (character : Char) : Prop :=
  character = '$' ∨ character = '%'

instance (character : Char) : Decidable (isSign character) :=
  inferInstanceAs (Decidable (_ ∨ _))

/-- A word has no sign in it. -/
theorem not_isSign_of_isWord {character : Char}
    (word : isWord character = true) : ¬ isSign character := by
  rintro (rfl | rfl) <;> exact absurd word (by decide)

/-- A sign with a brace is met where the sign stands in front of a brace. -/
theorem isPrefixOf_opening {sign character : Char} {rest : Text} :
    [sign, '\x7b'].isPrefixOf (character :: rest) = true ↔
      character = sign ∧ rest.head? = some '\x7b' := by
  rw [List.isPrefixOf_cons_cons, Bool.and_eq_true, beq_iff_eq,
    eq_comm (a := sign)]
  cases rest with
  | nil => simp
  | cons second others =>
      rw [List.isPrefixOf_cons_cons, List.isPrefixOf_nil_left,
        Bool.and_true, beq_iff_eq, List.head?_cons, Option.some_inj,
        eq_comm (a := second)]

theorem opensTemplate_cons (character : Char) (rest : Text) :
    opensTemplate (character :: rest) = true ↔
      isSign character ∧ rest.head? = some '\x7b' := by
  rw [opensTemplate, expressionOpening, directiveOpening, Bool.or_eq_true,
    isPrefixOf_opening, isPrefixOf_opening, isSign,
    or_and_right]

theorem templateParts_nil : templateParts [] = [] := by
  rw [templateParts]

/-- What is no sign stands for itself. -/
theorem templateParts_plain {character : Char} (noSign : ¬ isSign character)
    (rest : Text) :
    templateParts (character :: rest) =
      .literal character :: templateParts rest := by
  rw [templateParts, if_neg, if_neg]
  · exact fun opens => noSign ((opensTemplate_cons character rest).mp opens).1
  · rintro ⟨same, opens⟩
    obtain ⟨others, rfl⟩ := List.head?_eq_some_iff.mp same
    exact noSign ((opensTemplate_cons character others).mp opens).1

/-- A sign in front of which and behind which nothing is special. -/
theorem templateParts_single {character : Char} {rest : Text}
    (noBrace : rest.head? ≠ some '\x7b')
    (notDoubled : ∀ others, rest = character :: others →
      others.head? ≠ some '\x7b') :
    templateParts (character :: rest) =
      .literal character :: templateParts rest := by
  rw [templateParts, if_neg, if_neg]
  · exact fun opens => noBrace ((opensTemplate_cons character rest).mp opens).2
  · rintro ⟨same, opens⟩
    obtain ⟨others, rfl⟩ := List.head?_eq_some_iff.mp same
    exact notDoubled others rfl
      ((opensTemplate_cons character others).mp opens).2

theorem templateParts_doubled {character : Char} (sign : isSign character)
    (rest : Text) :
    templateParts (character :: character :: '\x7b' :: rest) =
      .literal character :: .literal '\x7b' :: templateParts rest := by
  have opens := (opensTemplate_cons character ('\x7b' :: rest)).mpr ⟨sign, rfl⟩
  rw [templateParts, if_pos ⟨rfl, opens⟩]
  rfl

theorem templateParts_append_plain {plain : Text}
    (noSigns : ∀ character ∈ plain, ¬ isSign character) (rest : Text) :
    templateParts (plain ++ rest) =
      plain.map .literal ++ templateParts rest := by
  induction plain with
  | nil => rfl
  | cons character others ih =>
      rw [List.forall_mem_cons] at noSigns
      rw [List.cons_append, templateParts_plain noSigns.1, ih noSigns.2]
      rfl

theorem templateParts_expression {inside : Text} (noBrace : '\x7d' ∉ inside)
    (rest : Text) :
    templateParts (templateExpression inside ++ rest) =
      .live '$' inside :: templateParts rest := by
  have goes : ∀ character ∈ inside, (character != '\x7d') = true := by
    intro character member
    apply bne_iff_ne.mpr
    rintro rfl
    exact noBrace member
  have body : templateExpression inside ++ rest =
      '$' :: '\x7b' :: (inside ++ '\x7d' :: rest) := by
    simp [templateExpression, expressionOpening]
  have opens := (opensTemplate_cons '$' ('\x7b' :: (inside ++ '\x7d' :: rest))).mpr
    ⟨.inl rfl, rfl⟩
  have notDoubled : ¬ (('\x7b' :: (inside ++ '\x7d' :: rest)).head? = some '$' ∧
      opensTemplate ('\x7b' :: (inside ++ '\x7d' :: rest)) = true) := by
    rintro ⟨same, -⟩
    cases same
  rw [body, templateParts, if_neg notDoubled, if_pos opens]
  simp [List.takeWhile_append_of_pos goes, List.dropWhile_append_of_pos goes]

/-! ## Restoring -/

theorem length_eq_of_restore {spellings : List Text}
    {parts : List TemplatePart} {text : Text}
    (restored : restore spellings parts = some text) :
    (parts.filterMap TemplatePart.live?).length = spellings.length := by
  fun_induction restore spellings parts generalizing text with
  | case1 => rfl
  | case2 => cases restored
  | case3 spellings character parts ih =>
      obtain ⟨later, found, -⟩ := Option.map_eq_some_iff.mp restored
      exact ih found
  | case4 => cases restored
  | case5 spelling others sign inside parts ih =>
      obtain ⟨later, found, -⟩ := Option.map_eq_some_iff.mp restored
      exact congrArg (· + 1) (ih found)

theorem restore_append_literals (spellings : List Text) (text : Text)
    (parts : List TemplatePart) :
    restore spellings (text.map .literal ++ parts) =
      (restore spellings parts).map (text ++ ·) := by
  induction text with
  | nil => simp
  | cons character others ih =>
      rw [List.map_cons, List.cons_append, restore, ih, Option.map_map]
      rfl

end Snowform.Hcl
