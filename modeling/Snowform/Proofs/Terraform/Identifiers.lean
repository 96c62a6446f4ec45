import Snowform.Proofs.Text.Uppercase
import Snowform.Terraform.Naming

/-!
# Identifiers of resources

An identifier consists of capitals, digits and underscores and starts with no
digit.  Such a text is its own identifier, so that it does not matter how
often names are made identifiers.

The name of a resource depends on the identifiers of its parts alone, and it
has no other characters either.
-/

namespace Snowform.Terraform

open Text

/-! ## Characters -/

/-- Whether a character may stand in an identifier. -/
def isIdentifierCharacter (character : Char) : Bool :=
  character.isUpper || character.isDigit || character == '_'

theorem isIdentifierCharacter_iff {character : Char} :
    isIdentifierCharacter character = true ↔
      (65 ≤ character.toNat ∧ character.toNat ≤ 90 ∨
        48 ≤ character.toNat ∧ character.toNat ≤ 57) ∨ character = '_' := by
  rw [isIdentifierCharacter, Bool.or_eq_true, Bool.or_eq_true,
    isUpper_iff_toNat, isDigit_iff_toNat, beq_iff_eq]

/-- What a character becomes in an identifier may stand in one. -/
theorem isIdentifierCharacter_identifierCharacter (character : Char) :
    isIdentifierCharacter (identifierCharacter character) = true := by
  rw [identifierCharacter]
  split
  next allowed => exact allowed
  next => decide

/-- There are no small letters in an identifier, so nothing is changed. -/
theorem identifierCharacter_of_isIdentifierCharacter {character : Char}
    (allowed : isIdentifierCharacter character = true) :
    identifierCharacter character = character := by
  have notSmall : ¬ (character.val ≥ 97 ∧ character.val ≤ 122) := by
    rintro ⟨small, -⟩
    have code : 97 ≤ character.toNat := small
    rcases isIdentifierCharacter_iff.mp allowed with (large | digit) | rfl
    · omega
    · omega
    · exact absurd code (by decide)
  have same : character.toUpper = character := dif_neg notSmall
  rw [identifierCharacter, same]
  exact if_pos allowed

/-! ## Identifiers -/

/-- A text that consists of characters of identifiers. -/
def IsIdentifierText (text : Text) : Prop :=
  ∀ character ∈ text, isIdentifierCharacter character = true

theorem IsIdentifierText.append {first second : Text}
    (firstAllowed : IsIdentifierText first)
    (secondAllowed : IsIdentifierText second) :
    IsIdentifierText (first ++ second) := by
  intro character member
  rcases List.mem_append.mp member with before | behind
  · exact firstAllowed character before
  · exact secondAllowed character behind

/-- An identifier stays on its line. -/
theorem IsIdentifierText.not_feed_mem {text : Text}
    (allowed : IsIdentifierText text) : '\n' ∉ text := by
  intro feed
  exact absurd (allowed '\n' feed) (by decide)

/-- Any name becomes an identifier character by character. -/
theorem isIdentifierText_map (name : Text) :
    IsIdentifierText (name.map identifierCharacter) := by
  intro character member
  obtain ⟨original, -, rfl⟩ := List.mem_map.mp member
  exact isIdentifierCharacter_identifierCharacter original

/-- Any name becomes an identifier. -/
theorem isIdentifierText_identifier (name : Text) :
    IsIdentifierText (identifier name) := by
  rw [identifier]
  split
  next =>
    intro character member
    rcases List.mem_cons.mp member with rfl | inside
    · decide
    · exact isIdentifierText_map name character inside
  next => exact isIdentifierText_map name

/-- An identifier does not start with a digit. -/
theorem head?_identifier (name : Text) :
    (identifier name).head?.any Char.isDigit = false := by
  rw [identifier]
  split
  next => rfl
  next noDigit => simpa using noDigit

/-- A text that could be an identifier is its own identifier. -/
theorem identifier_of_isIdentifierText {name : Text}
    (allowed : IsIdentifierText name)
    (noDigit : name.head?.any Char.isDigit = false) :
    identifier name = name := by
  have same : name.map identifierCharacter = name := by
    calc
      name.map identifierCharacter = name.map id := by
        apply List.map_congr_left
        intro character member
        exact identifierCharacter_of_isIdentifierCharacter
          (allowed character member)
      _ = name := List.map_id name
  rw [identifier, same]
  rw [noDigit]
  rfl

@[simp]
theorem identifier_identifier (name : Text) :
    identifier (identifier name) = identifier name :=
  identifier_of_isIdentifierText (isIdentifierText_identifier name)
    (head?_identifier name)

/-! ## Names of resources -/

/-- Any schema becomes an identifier, whatever suffix it loses. -/
theorem isIdentifierText_schemaIdentifier (suffixes : List Text)
    (schema : Text) : IsIdentifierText (schemaIdentifier suffixes schema) := by
  have whole := isIdentifierText_identifier schema
  rw [schemaIdentifier]
  cases found : suffixes.findSome? fun suffix =>
      (dropEnd? (identifier suffix) (identifier schema)).filter
        (!·.isEmpty) with
  | none => exact whole
  | some stem =>
      obtain ⟨suffix, -, cut⟩ := List.exists_of_findSome?_eq_some found
      obtain ⟨dropped, -⟩ := Option.filter_eq_some_iff.mp cut
      rw [dropEnd?] at dropped
      split at dropped
      next =>
        cases dropped
        intro character member
        exact whole character (List.mem_of_mem_take member)
      next => cases dropped

/-- The name of any resource is an identifier. -/
theorem isIdentifierText_resourceName (policy : Policy)
    (name : QualifiedName) : IsIdentifierText (policy.resourceName name) := by
  have bare := isIdentifierText_identifier name.name
  rw [Policy.resourceName]
  split
  next schema _ =>
    split
    · refine (isIdentifierText_schemaIdentifier _ schema).append ?_
      intro character member
      rcases List.mem_cons.mp member with rfl | inside
      · decide
      · exact bare character inside
    · exact bare
  next => exact bare

/-- The name of a resource is told from the identifiers of its parts. -/
theorem resourceName_congr (policy : Policy) {first second : QualifiedName}
    (schemas : first.schema.map policy.schema =
      second.schema.map policy.schema)
    (names : identifier first.name = identifier second.name) :
    policy.resourceName first = policy.resourceName second := by
  rw [Policy.resourceName, Policy.resourceName, names]
  cases firstSchema : first.schema with
  | none =>
      cases secondSchema : second.schema with
      | none => rfl
      | some schema =>
          rw [firstSchema, secondSchema] at schemas
          cases schemas
  | some schema =>
      cases secondSchema : second.schema with
      | none =>
          rw [firstSchema, secondSchema] at schemas
          cases schemas
      | some other =>
          rw [firstSchema, secondSchema] at schemas
          have same : policy.schema schema = policy.schema other :=
            Option.some.inj schemas
          simp only [same]

end Snowform.Terraform
