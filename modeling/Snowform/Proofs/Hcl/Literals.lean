import Snowform.Hcl.Block
import Snowform.Hcl.Literal
import Snowform.Proofs.Hcl.Escapes
import Snowform.Proofs.Text.Trimming
import Snowform.Terraform.ColumnDefault
import Mathlib.Tactic.SplitIfs

/-!
# Values as literals

A quoted value is read back by the configuration language unless it holds an
apostrophe, a dollar sign or the character zero.  Those are written with a
backslash, too, but the language has no such escapes and refuses the text.

Percent signs are written as they stand.  What is told here is about values
in which no percent sign stands in front of an opening brace.
-/

namespace Snowform.Hcl

open Text

/-! ## Written characters -/

/-- The characters that are written with escapes the language has not. -/
def foreignCharacters : Text := ['\'', '$', '\x00']

/-- A value of characters that the language reads back. -/
def IsSpellable (value : Text) : Prop :=
  ∀ character ∈ value, character ∉ foreignCharacters

instance (value : Text) : Decidable (IsSpellable value) :=
  List.decidableBAll _ value

/-- A value in which no directive opens. -/
def HoldsNoDirective (value : Text) : Prop :=
  ¬ directiveOpening <:+: value

instance (value : Text) : Decidable (HoldsNoDirective value) :=
  inferInstanceAs (Decidable (¬ _))

theorem HoldsNoDirective.tail {character : Char} {value : Text}
    (noDirective : HoldsNoDirective (character :: value)) :
    HoldsNoDirective value :=
  fun inside => noDirective (List.infix_cons inside)

theorem isSpellable_nil : IsSpellable [] :=
  List.forall_mem_nil _

theorem isSpellable_cons {character : Char} {value : Text} :
    IsSpellable (character :: value) ↔
      character ∉ foreignCharacters ∧ IsSpellable value :=
  List.forall_mem_cons

/-- The characters that are written with a backslash. -/
def markedCharacters : Text :=
  ['\\', '"', '\'', '\n', '\r', '\t', '$', '\x00']

/-- A character is written as a known escape, a foreign one or itself. -/
theorem escapeCharacter_cases (character : Char) :
    (∃ letter, escapeLetters.lookup letter = some character ∧
        character ∉ foreignCharacters ∧
        escapeCharacter character = ['\\', letter]) ∨
      (∃ letter, escapeLetters.lookup letter = none ∧
        codeLetters.lookup letter = none ∧
        character ∈ foreignCharacters ∧
        escapeCharacter character = ['\\', letter]) ∨
      (character ∉ markedCharacters ∧
        escapeCharacter character = [character]) := by
  rcases escapeCharacter_forms character with
    ⟨letter, written, listed⟩ | ⟨written, plain⟩
  · have kinds : ∀ escape ∈ escapes,
        (escapeLetters.lookup escape.2 = some escape.1 ∧
          escape.1 ∉ foreignCharacters) ∨
        (escapeLetters.lookup escape.2 = none ∧
          codeLetters.lookup escape.2 = none ∧
          escape.1 ∈ foreignCharacters) := by decide
    rcases kinds _ listed with ⟨known, own⟩ | ⟨unknown, noCode, foreign⟩
    · exact .inl ⟨letter, known, own, written⟩
    · exact .inr (.inl ⟨letter, unknown, noCode, foreign, written⟩)
  · exact .inr (.inr ⟨plain, written⟩)

/-! ## Reading a quoted value -/

/-- An escape is read as the character that it stands for. -/
theorem readUnit?_escape {letter character : Char}
    (known : escapeLetters.lookup letter = some character) (rest : Text) :
    readUnit? ('\\' :: letter :: rest) = some ([character], rest) := by
  rw [readUnit?, if_pos rfl, readEscape?, known]
  rfl

/-- A backslash in front of an unknown letter is no unit. -/
theorem readUnit?_eq_none {letter : Char}
    (unknown : escapeLetters.lookup letter = none)
    (noCode : codeLetters.lookup letter = none) (rest : Text) :
    readUnit? ('\\' :: letter :: rest) = none := by
  rw [readUnit?, if_pos rfl, readEscape?, unknown, noCode]
  rfl

/-- A character that starts no escape starts the written value itself. -/
theorem exists_cons_of_escape {value rest tail : Text} {character : Char}
    (noMark : character ∉ (['\\', '"'] : Text))
    (same : escape value ++ '"' :: rest = character :: tail) :
    character ∉ markedCharacters ∧ ∃ others, value = character :: others ∧
      tail = escape others ++ '"' :: rest := by
  simp only [List.mem_cons, List.not_mem_nil, or_false, not_or] at noMark
  cases value with
  | nil => exact absurd (List.cons.inj same).1.symm noMark.2
  | cons first others =>
      rw [escape, List.flatMap_cons, List.append_assoc] at same
      rcases escapeCharacter_cases first with
        ⟨letter, -, -, written⟩ | ⟨letter, -, -, -, written⟩ |
          ⟨plain, written⟩
      · rw [written] at same
        exact absurd (List.cons.inj same).1.symm noMark.1
      · rw [written] at same
        exact absurd (List.cons.inj same).1.symm noMark.1
      · rw [written] at same
        obtain ⟨rfl, behind⟩ := List.cons.inj same
        exact ⟨plain, others, rfl, behind.symm⟩

/-- Only a directive of the value itself opens in a written value. -/
theorem opensTemplate_eq_false {value : Text}
    (noDirective : HoldsNoDirective value) (rest : Text) :
    opensTemplate (escape value ++ '"' :: rest) = false := by
  rw [opensTemplate, Bool.or_eq_false_iff]
  constructor
  · rw [Bool.eq_false_iff, ne_eq, List.isPrefixOf_iff_prefix]
    rintro ⟨tail, same⟩
    have plain := (exists_cons_of_escape (by decide) same.symm).1
    exact absurd plain (by decide)
  · rw [Bool.eq_false_iff, ne_eq, List.isPrefixOf_iff_prefix]
    rintro ⟨tail, same⟩
    obtain ⟨-, others, rfl, behind⟩ :=
      exists_cons_of_escape (by decide) same.symm
    obtain ⟨-, rest, rfl, -⟩ :=
      exists_cons_of_escape (by decide) behind.symm
    exact noDirective ⟨[], rest, rfl⟩

theorem readUnit?_plain {character : Char} {others : Text}
    (plain : character ∉ markedCharacters)
    (written : escapeCharacter character = [character])
    (noDirective : HoldsNoDirective (character :: others)) (rest : Text) :
    readUnit? (character :: (escape others ++ '"' :: rest)) =
      some ([character], escape others ++ '"' :: rest) := by
  have whole := opensTemplate_eq_false noDirective rest
  rw [escape, List.flatMap_cons, written, List.singleton_append,
    List.cons_append, ← escape] at whole
  have behind := opensTemplate_eq_false noDirective.tail rest
  simp only [markedCharacters, List.mem_cons, List.not_mem_nil, or_false,
    not_or] at plain
  rw [readUnit?, if_neg plain.1, whole, behind]
  simp [plain]

/-- A written value is read back, or refused for a foreign character. -/
theorem readLiteral?_escape {value : Text}
    (noDirective : HoldsNoDirective value) (rest : Text) :
    readLiteral? (escape value ++ '"' :: rest) =
      if IsSpellable value then some (value, rest) else none := by
  induction value with
  | nil =>
      rw [if_pos isSpellable_nil]
      exact readLiteral?_quote rest
  | cons character others ih =>
      have later := ih noDirective.tail
      simp only [isSpellable_cons]
      rw [escape, List.flatMap_cons, List.append_assoc, ← escape]
      rcases escapeCharacter_cases character with
        ⟨letter, known, common, written⟩ |
          ⟨letter, unknown, noCode, foreign, written⟩ | ⟨plain, written⟩
      · have unit := readUnit?_escape known (escape others ++ '"' :: rest)
        rw [written, List.cons_append, List.singleton_append,
          readLiteral?_of_unit (by simp) unit, later]
        simp only [common, not_false_eq_true, true_and]
        split <;> rfl
      · have unit := readUnit?_eq_none unknown noCode
          (escape others ++ '"' :: rest)
        rw [written, List.cons_append, List.singleton_append,
          readLiteral?_eq_none (by simp) unit,
          if_neg fun spellable => spellable.1 foreign]
      · have unit := readUnit?_plain plain written noDirective rest
        have common : character ∉ foreignCharacters ∧ character ≠ '"' := by
          simp_all [markedCharacters, foreignCharacters]
        rw [written, List.singleton_append,
          readLiteral?_of_unit (by simp [common]) unit, later]
        simp only [common, not_false_eq_true, true_and]
        split <;> rfl

/-- A quoted text is read back if and only if it can be spelled. -/
theorem readQuoted?_quoted {value : Text}
    (noDirective : HoldsNoDirective value) (rest : Text) :
    readQuoted? (quoted value ++ rest) =
      if IsSpellable value then some (value, rest) else none := by
  have opened : quoted value ++ rest =
      ['"'] ++ (escape value ++ '"' :: rest) := by
    simp [quoted]
  rw [readQuoted?, opened, dropStart?_append]
  exact readLiteral?_escape noDirective rest

theorem literal?_quoted {value : Text}
    (noDirective : HoldsNoDirective value) :
    literal? (quoted value) =
      if IsSpellable value then some value else none := by
  have read := readQuoted?_quoted noDirective []
  rw [List.append_nil] at read
  rw [literal?, read]
  split <;> rfl

/-! ## Reading a list -/

section

variable {text value after : Text}

theorem readLiterals?_eq_none (noLiteral : readQuoted? text = none) :
    readLiterals? text = none := by
  rw [readLiterals?]
  split
  next => rfl
  next found => cases noLiteral.symm.trans found

theorem readLiterals?_last (first : readQuoted? text = some (value, after))
    (ends : dropStart? ", " after = none) :
    readLiterals? text = some ([value], after) := by
  rw [readLiterals?]
  split
  next noLiteral => cases noLiteral.symm.trans first
  next found =>
    cases found.symm.trans first
    split
    next => rfl
    next more => cases ends.symm.trans more

theorem readLiterals?_more {others : Text}
    (first : readQuoted? text = some (value, after))
    (more : dropStart? ", " after = some others) :
    readLiterals? text = (readLiterals? others).map fun (values, rest) =>
      (value :: values, rest) := by
  rw [readLiterals?]
  split
  next noLiteral => cases noLiteral.symm.trans first
  next found =>
    cases found.symm.trans first
    split
    next ends => cases ends.symm.trans more
    next behind =>
      cases behind.symm.trans more
      rfl

end

theorem readLiterals?_intercalate {value : Text} {others : List Text}
    (noDirective : ∀ text ∈ value :: others, HoldsNoDirective text) :
    readLiterals? ((", " : Text).intercalate ((value :: others).map quoted)) =
      if ∀ text ∈ value :: others, IsSpellable text then
        some (value :: others, [])
      else
        none := by
  induction others generalizing value with
  | nil =>
      have read := readQuoted?_quoted (noDirective value List.mem_cons_self) []
      rw [List.append_nil] at read
      rw [List.map_singleton, List.intercalate_singleton]
      by_cases spellable : IsSpellable value
      · rw [if_pos spellable] at read
        rw [readLiterals?_last read rfl,
          if_pos (List.forall_mem_singleton.mpr spellable)]
      · rw [if_neg spellable] at read
        rw [readLiterals?_eq_none read,
          if_neg fun all => spellable (all value List.mem_cons_self)]
  | cons next others ih =>
      obtain ⟨first, later⟩ := List.forall_mem_cons.mp noDirective
      have behind := ih later
      have read := readQuoted?_quoted first
        ((", " : Text) ++
          (", " : Text).intercalate ((next :: others).map quoted))
      rw [List.map_cons, List.map_cons, List.intercalate_cons_cons,
        ← List.map_cons, List.append_assoc]
      by_cases spellable : IsSpellable value
      · rw [if_pos spellable] at read
        rw [readLiterals?_more read (dropStart?_append _ _), behind]
        simp only [List.forall_mem_cons (a := value), spellable, true_and]
        split <;> rfl
      · rw [if_neg spellable] at read
        rw [readLiterals?_eq_none read,
          if_neg fun all => spellable (all value List.mem_cons_self)]

/--
A list of quoted texts is read back if and only if all of them can be spelled.
-/
theorem literals?_listed {values : List Text}
    (noDirective : ∀ value ∈ values, HoldsNoDirective value) :
    literals? (listed values) =
      if ∀ value ∈ values, IsSpellable value then some values else none := by
  have opened : dropStart? ['['] (listed values) =
      some ((", " : Text).intercalate (values.map quoted) ++ [']']) :=
    dropStart?_append ['['] _
  have closed : dropEnd? [']']
      ((", " : Text).intercalate (values.map quoted) ++ [']']) =
      some ((", " : Text).intercalate (values.map quoted)) :=
    dropEnd?_append [']'] _
  rw [literals?, opened, Option.bind_eq_bind, Option.bind_some, closed,
    Option.bind_some]
  cases values with
  | nil => rfl
  | cons value others =>
      have nonempty : ((", " : Text).intercalate
          ((value :: others).map quoted)).isEmpty = false := by
        cases others <;> simp [quoted, List.intercalate_cons_cons]
      rw [nonempty, if_neg (by decide), readLiterals?_intercalate noDirective]
      split <;> rfl

/-! ## Attributes and defaults -/

/--
An attribute with a value, an attribute with a list of values, and a default
that is an expression are read back as the values they are written for,
exactly where these are without apostrophes, dollar signs and the character
zero.  With one of those the written text is no literal.
-/
theorem literals_read_back_unless_foreign :
    (∀ depth key value, HoldsNoDirective value →
      ∃ written, (Item.text key value).write depth =
          assignment depth key written ∧
        literal? written = if IsSpellable value then some value else none) ∧
      (∀ depth key values, (∀ value ∈ values, HoldsNoDirective value) →
        ∃ written, (Item.texts key values).write depth =
            assignment depth key written ∧
          literals? written =
            if ∀ value ∈ values, IsSpellable value then
              some values
            else
              none) ∧
      ∀ text, HoldsNoDirective text →
        literal? (Terraform.ColumnDefault.expression text).value =
          if IsSpellable text then some text else none := by
  refine ⟨?_, ?_, ?_⟩
  · intro depth key value noDirective
    exact ⟨quoted value, rfl, literal?_quoted noDirective⟩
  · intro depth key values noDirective
    exact ⟨listed values, rfl, literals?_listed noDirective⟩
  · intro text noDirective
    exact literal?_quoted noDirective

/-- Quotes, backslashes, line ends and percent signs are read back. -/
theorem literals_read_back_unless_foreign_marks :
    ∃ value : Text, value = "\"50%\"\n\\" ∧ IsSpellable value ∧
      HoldsNoDirective value ∧
      ∃ written, (Item.text "comment" value).write 1 =
          assignment 1 "comment" written ∧
        literal? written = some value := by
  have spellable : IsSpellable ("\"50%\"\n\\" : Text) := by decide
  have noDirective : HoldsNoDirective ("\"50%\"\n\\" : Text) := by
    decide +kernel
  obtain ⟨written, line, read⟩ := literals_read_back_unless_foreign.1 1
    "comment" _ noDirective
  rw [if_pos spellable] at read
  exact ⟨_, rfl, spellable, noDirective, written, line, read⟩

/-- Values that are written as texts which the language refuses. -/
theorem refused_literals :
    quoted "it's" = "\"it\\'s\"".toList ∧ literal? (quoted "it's") = none ∧
      literal? (quoted "$5") = none ∧ literal? (quoted ['\x00']) = none ∧
      literal? (quoted directiveOpening) = none := by
  decide +kernel

end Snowform.Hcl
