import Snowform.Proofs.Ddl.BodyLiterals
import Snowform.Proofs.Ddl.QuotedLists

/-!
# String literals as parts of statements

A string literal can stand in front of any phrase that does not start with a
quote, as a quoted name can.  A masked statement shows nothing of what stands
in it but line feeds, and lists are not divided there.
-/

namespace Snowform

open Text Lexical

/--
A literal in front of a phrase makes a phrase, unless its closing quote would
be doubled.
-/
theorem isPhrase_stringLiteral_append (text : Text) {rest : Text}
    (phrase : IsPhrase rest) (single : rest.head? ≠ some '\'') :
    IsPhrase (stringLiteral text ++ rest) := by
  refine ⟨?_, ?_⟩
  · rw [lexemes, lexemesFrom_stringLiteral _ text single,
      lexemesFrom_stringLiteral _ text single]
  · rw [lexemes, lexemesFrom_stringLiteral _ text single, List.forall_mem_cons]
    exact ⟨⟨rfl, rfl⟩, phrase.kept⟩

/-- A literal is a part, whatever text it holds. -/
theorem isPart_stringLiteral (text : Text) : IsPart (stringLiteral text) := by
  refine ⟨fun rest phrase bare =>
    isPhrase_stringLiteral_append text phrase bare.1, ?_⟩
  intro rest _ bare
  rw [cells, lexemes, lexemesFrom_stringLiteral _ text bare.1,
    List.flatMap_cons, cells, lexemes_stringLiteral, List.flatMap_singleton]
  rfl

/-- A masked literal shows quotes at its ends only. -/
theorem isBalanced_cells_stringLiteral (text : Text) :
    IsBalanced (cells (stringLiteral text)) := by
  rw [cells_stringLiteral]
  exact isBalanced_hidden (.inl rfl) _

/-- No comma of a literal divides a list. -/
theorem isUndivided_stringLiteral {depth : Int} (text : Text) :
    IsUndivided depth (stringLiteral text) :=
  isUndivided_twice (.inl rfl) text

end Snowform
