import Snowform.Proofs.Lexical.Opening

/-!
# The smallest regions of a script

`lexemesFrom` counts down over the characters that a region already covers.
Seen from region to region it only takes one region off the text at a time:
`lexemeInduction` is the induction that follows these steps, and the texts of
the regions put together are the text again.

What is behind a place matters in one way only, namely whether a dollar sign
there would continue a name.
-/

namespace Snowform.Lexical

open Text

/-- The texts of regions put together. -/
def textOf (regions : List Region) : Text :=
  regions.flatMap Region.text

@[simp]
theorem textOf_nil : textOf [] = [] := rfl

@[simp]
theorem textOf_cons (region : Region) (others : List Region) :
    textOf (region :: others) = region.text ++ textOf others := rfl

@[simp]
theorem textOf_append (first second : List Region) :
    textOf (first ++ second) = textOf first ++ textOf second := by
  simp [textOf]

/-- Whether the end of a text continues a name, where it may be empty. -/
def nameBehind (afterName : Bool) (text : Text) : Bool :=
  text.foldl (fun _ character => continuesName character) afterName

@[simp]
theorem nameBehind_nil (afterName : Bool) :
    nameBehind afterName [] = afterName := rfl

@[simp]
theorem nameBehind_cons (afterName : Bool) (character : Char) (rest : Text) :
    nameBehind afterName (character :: rest) =
      nameBehind (continuesName character) rest := rfl

@[simp]
theorem nameBehind_append (afterName : Bool) (first second : Text) :
    nameBehind afterName (first ++ second) =
      nameBehind (nameBehind afterName first) second := by
  simp [nameBehind]

/-! ## From region to region -/

/-- Characters that are covered already only say what is behind. -/
theorem lexemesFrom_length (covered : Text) (afterName : Bool) (rest : Text) :
    lexemesFrom covered.length afterName (covered ++ rest) =
      lexemesFrom 0 (nameBehind afterName covered) rest := by
  induction covered generalizing afterName with
  | nil => rfl
  | cons character others ih => exact ih (continuesName character)

/-- A special region is found whole, and the scan goes on behind it. -/
theorem lexemesFrom_special {afterName : Bool} {region : Region} {rest : Text}
    (found : special? afterName (region.text ++ rest) = some region) :
    lexemesFrom 0 afterName (region.text ++ rest) =
      region :: lexemesFrom 0 (nameBehind afterName region.text) rest := by
  obtain ⟨-, nonempty, -⟩ := special?_spec found
  cases whole : region.text with
  | nil => exact absurd whole nonempty
  | cons character others =>
      rw [whole, List.cons_append] at found
      rw [List.cons_append, lexemesFrom, found]
      simp only [whole, List.length_cons, Nat.add_sub_cancel,
        nameBehind_cons]
      rw [lexemesFrom_length]

/-- A character that opens nothing is a region of its own. -/
theorem lexemesFrom_code {afterName : Bool} {character : Char} {rest : Text}
    (absent : special? afterName (character :: rest) = none) :
    lexemesFrom 0 afterName (character :: rest) =
      ⟨.code, [character]⟩ ::
        lexemesFrom 0 (continuesName character) rest := by
  rw [lexemesFrom, absent]

/-- Induction along the smallest regions of a text. -/
@[elab_as_elim]
theorem lexemeInduction {motive : Bool → Text → Prop}
    (nil : ∀ afterName, motive afterName [])
    (special : ∀ afterName region rest,
      special? afterName (region.text ++ rest) = some region →
      motive (nameBehind afterName region.text) rest →
      motive afterName (region.text ++ rest))
    (code : ∀ afterName character rest,
      special? afterName (character :: rest) = none →
      motive (continuesName character) rest →
      motive afterName (character :: rest))
    (afterName : Bool) (text : Text) : motive afterName text := by
  -- A region of several characters jumps, so the length has to go down.
  induction size : text.length using Nat.strong_induction_on
    generalizing afterName text with
  | _ length ih =>
      cases found : special? afterName text with
      | some region =>
          obtain ⟨⟨rest, rfl⟩, nonempty, -⟩ := special?_spec found
          have positive : 0 < region.text.length :=
            List.length_pos_iff.mpr nonempty
          rw [List.length_append] at size
          exact special afterName region rest found
            (ih rest.length (by omega) _ rest rfl)
      | none =>
          cases text with
          | nil => exact nil afterName
          | cons character rest =>
              rw [List.length_cons] at size
              exact code afterName character rest found
                (ih rest.length (by omega) _ rest rfl)

/-- Cutting a text into regions loses nothing. -/
theorem textOf_lexemesFrom (afterName : Bool) (text : Text) :
    textOf (lexemesFrom 0 afterName text) = text := by
  induction afterName, text using lexemeInduction with
  | nil afterName => rfl
  | special afterName region rest found ih =>
      rw [lexemesFrom_special found, textOf_cons, ih]
  | code afterName character rest absent ih =>
      rw [lexemesFrom_code absent, textOf_cons, ih]
      rfl

/-- Lexemes are the script when they are put together. -/
theorem textOf_lexemes (script : Text) : textOf (lexemes script) = script :=
  textOf_lexemesFrom false script

/-- A smallest region is not empty, and one of code is a single character. -/
def IsLexeme (region : Region) : Prop :=
  region.text ≠ [] ∧
    (region.kind = .code → ∃ character, region.text = [character])

/-- Everything that a scan finds is a lexeme. -/
theorem isLexeme_of_mem_lexemesFrom (afterName : Bool) (text : Text) :
    ∀ region ∈ lexemesFrom 0 afterName text, IsLexeme region := by
  induction afterName, text using lexemeInduction with
  | nil afterName =>
      intro region member
      cases member
  | special afterName region rest found ih =>
      obtain ⟨-, nonempty, notCode⟩ := special?_spec found
      rw [lexemesFrom_special found, List.forall_mem_cons]
      exact ⟨⟨nonempty, fun code => absurd code notCode⟩, ih⟩
  | code afterName character rest absent ih =>
      rw [lexemesFrom_code absent, List.forall_mem_cons]
      exact ⟨⟨List.cons_ne_nil _ _, fun _ => ⟨character, rfl⟩⟩, ih⟩

theorem isLexeme_of_mem_lexemes {script : Text} {region : Region}
    (member : region ∈ lexemes script) : IsLexeme region :=
  isLexeme_of_mem_lexemesFrom false script region member

/-- Behind its first region a text is cut as if it started there. -/
theorem lexemesFrom_of_eq_cons {afterName : Bool} {text : Text}
    {region : Region} {others : List Region}
    (parts : lexemesFrom 0 afterName text = region :: others) :
    lexemesFrom 0 (nameBehind afterName region.text) (textOf others) =
      others := by
  cases found : special? afterName text with
  | some first =>
      obtain ⟨⟨rest, rfl⟩, -⟩ := special?_spec found
      rw [lexemesFrom_special found] at parts
      obtain ⟨rfl, rfl⟩ := List.cons.inj parts
      rw [textOf_lexemesFrom]
  | none =>
      cases text with
      | nil => cases parts
      | cons character rest =>
          rw [lexemesFrom_code found] at parts
          obtain ⟨rfl, rfl⟩ := List.cons.inj parts
          rw [textOf_lexemesFrom]
          rfl

/--
From the end of any of its regions on, a text is cut as if it started there.
-/
theorem lexemesFrom_of_eq_append {afterName : Bool} {text : Text}
    {first second : List Region}
    (parts : lexemesFrom 0 afterName text = first ++ second) :
    lexemesFrom 0 (nameBehind afterName (textOf first)) (textOf second) =
      second := by
  induction first generalizing afterName text with
  | nil =>
      have whole : text = textOf second := by
        rw [← textOf_lexemesFrom afterName text, parts, List.nil_append]
      rw [← whole]
      exact parts
  | cons region others ih =>
      rw [textOf_cons, nameBehind_append]
      exact ih (lexemesFrom_of_eq_cons parts)

end Snowform.Lexical
