import Snowform.Terraform.Substitution
import Snowform.Proofs.Ordered
import Mathlib.Data.Char
import Mathlib.Data.List.Lex

/-!
# Substitutions in one form

Tokens are spelled in a pattern so that they can be told apart, and one of
two different ones is tried first.  So a substitution depends on which tokens
it is made of, and on nothing else.
-/

namespace Snowform.Terraform

open Text

/-! ## Spellings -/

theorem patternSpelling_cons (character : Char) (token : Text) :
    patternSpelling (character :: token) =
      (if isPatternMark character then ['\\', character] else [character]) ++
        patternSpelling token :=
  List.flatMap_cons

/-- Only a mark is spelled with a backslash in front, itself one of them. -/
theorem patternSpelling_injective : Function.Injective patternSpelling := by
  have backslash : isPatternMark '\\' = true := by decide
  intro first second same
  induction first generalizing second with
  | nil =>
      cases second with
      | nil => rfl
      | cons character rest =>
          rw [patternSpelling_cons] at same
          split at same <;> cases same
  | cons character rest ih =>
      cases second with
      | nil =>
          rw [patternSpelling_cons] at same
          split at same <;> cases same
      | cons other others =>
          rw [patternSpelling_cons, patternSpelling_cons] at same
          split_ifs at same with mark otherMark otherMark
          · injection same with _ same
            injection same with head tail
            rw [head, ih tail]
          · injection same with head
            exact absurd (head ▸ backslash) otherMark
          · injection same with head
            exact absurd (head ▸ backslash) mark
          · injection same with head tail
            rw [head, ih tail]

/-! ## The order of tokens -/

theorem tokenBefore_iff {first second : Text} :
    tokenBefore first second = true ↔
      byteSize (patternSpelling second) < byteSize (patternSpelling first) ∨
        byteSize (patternSpelling second) =
            byteSize (patternSpelling first) ∧
          patternSpelling first < patternSpelling second := by
  simp [tokenBefore]

instance : IsStrictTotalOrder Text (tokenBefore · ·) where
  irrefl token before := by
    rcases tokenBefore_iff.mp before with longer | ⟨_, earlier⟩
    · exact lt_irrefl _ longer
    · exact lt_irrefl _ earlier
  trans first second third := by
    simp only [tokenBefore_iff]
    rintro (longer | ⟨same, earlier⟩) (longer' | ⟨same', earlier'⟩)
    · exact .inl (longer'.trans longer)
    · exact .inl (same' ▸ longer)
    · exact .inl (same ▸ longer')
    · exact .inr ⟨same'.trans same, earlier.trans earlier'⟩
  trichotomous first second := by
    simp only [tokenBefore_iff, not_or, not_and]
    rintro ⟨notLonger, notEarlier⟩ ⟨notShorter, notLater⟩
    have same := le_antisymm (not_lt.mp notShorter) (not_lt.mp notLonger)
    exact patternSpelling_injective
      (le_antisymm (not_lt.mp (notLater same.symm))
        (not_lt.mp (notEarlier same)))

/-! ## Substitutions -/

/-- Tokens in another order are tried in the same order. -/
theorem orderedTokens_perm {first second : List Text}
    (permuted : first.Perm second) :
    orderedTokens first = orderedTokens second :=
  ordered_eq_of_mem_iff fun _ =>
    ((permuted.map trim).filter _).mem_iff

theorem Substitution.ofTokens_perm {first second : List Text}
    (permuted : first.Perm second) (suffixes : List Text) :
    Substitution.ofTokens first suffixes =
      Substitution.ofTokens second suffixes := by
  rw [Substitution.ofTokens, Substitution.ofTokens,
    orderedTokens_perm permuted]

end Snowform.Terraform
