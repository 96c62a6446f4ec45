import Snowform.Ddl.Column
import Snowform.Proofs.Text.Respacing
import Snowform.Proofs.Text.Trimming

/-!
# String literals

Any text can be written as a string literal, if its own quotes are written
twice, and is read back from it.  A literal has an even number of quotes, and
what it starts with has an odd number of them wherever it is cut in front of
another character.  That is how readers of words tell that a literal goes on.
-/

namespace Snowform

open Text Lexical

/-- A text with its single quotes written twice. -/
def doubledQuotes (text : Text) : Text :=
  text.flatMap fun character =>
    if character = '\'' then ['\'', '\''] else [character]

/-- A text between single quotes. -/
def stringLiteral (text : Text) : Text :=
  '\'' :: (doubledQuotes text ++ ['\''])

@[simp]
theorem doubledQuotes_cons_quote (rest : Text) :
    doubledQuotes ('\'' :: rest) = '\'' :: '\'' :: doubledQuotes rest := rfl

theorem doubledQuotes_cons {character : Char} (other : character ≠ '\'')
    (rest : Text) :
    doubledQuotes (character :: rest) = character :: doubledQuotes rest := by
  rw [doubledQuotes, List.flatMap_cons, if_neg other]
  rfl

theorem head?_stringLiteral (text : Text) :
    (stringLiteral text).head? = some '\'' := rfl

theorem getLast?_stringLiteral (text : Text) :
    (stringLiteral text).getLast? = some '\'' := by
  rw [stringLiteral, ← List.cons_append, List.getLast?_concat]

/-! ## Reading back -/

/-- Doubled quotes are undoubled to the text they were made of. -/
theorem replaceAll_doubledQuotes (text : Text) :
    replaceAll "''" "'" (doubledQuotes text) = text := by
  have pattern : ("''" : Text) = ['\'', '\''] := rfl
  have replacement : ("'" : Text) = ['\''] := rfl
  rw [pattern, replacement, replaceAll]
  induction text with
  | nil => rfl
  | cons character rest ih =>
      by_cases quote : character = '\''
      · rw [quote, doubledQuotes_cons_quote, replaceFrom]
        simp [replaceFrom, ih]
      · rw [doubledQuotes_cons quote, replaceFrom, if_neg, ih]
        simp [Ne.symm quote]

/-- A string literal is read back. -/
theorem unquoteLiteral_stringLiteral (text : Text) :
    unquoteLiteral (stringLiteral text) = text := by
  have whole : trim (stringLiteral text) = stringLiteral text :=
    trim_of_ends (head?_stringLiteral text) (getLast?_stringLiteral text)
      (by decide)
  have opened : dropStart? "'" (stringLiteral text) =
      some (doubledQuotes text ++ ['\'']) := rfl
  have inside : dropEnd? "'" (doubledQuotes text ++ ['\'']) =
      some (doubledQuotes text) := by
    have quote : ("'" : Text) = ['\''] := rfl
    rw [quote, dropEnd?, if_pos (List.isSuffixOf_iff_suffix.mpr
      (List.suffix_append _ _)), List.length_append, Nat.add_sub_cancel,
      List.take_left]
  rw [unquoteLiteral, whole, opened]
  dsimp only [Option.getD_some]
  rw [inside, Option.getD_some, replaceAll_doubledQuotes]

/-- Different texts have different literals. -/
theorem stringLiteral_injective : Function.Injective stringLiteral := by
  intro text other same
  rw [← unquoteLiteral_stringLiteral text, same, unquoteLiteral_stringLiteral]

/-! ## Counting -/

theorem count_doubledQuotes (text : Text) :
    (doubledQuotes text).count '\'' = 2 * text.count '\'' := by
  induction text with
  | nil => rfl
  | cons character rest ih =>
      by_cases quote : character = '\''
      · rw [quote, doubledQuotes_cons_quote, List.count_cons_self,
          List.count_cons_self, List.count_cons_self, ih]
        omega
      · rw [doubledQuotes_cons quote, List.count_cons_of_ne quote,
          List.count_cons_of_ne quote, ih]

/-- A literal has an even number of quotes. -/
theorem even_count_stringLiteral (text : Text) :
    (stringLiteral text).count '\'' % 2 = 0 := by
  rw [stringLiteral, List.count_cons_self, List.count_append,
    count_doubledQuotes, List.count_singleton_self]
  omega

/-- In front of a character of a literal its quotes come in pairs. -/
theorem even_count_of_doubledQuotes {text front behind : Text}
    {character : Char} (other : character ≠ '\'')
    (parts : doubledQuotes text ++ ['\''] = front ++ character :: behind) :
    front.count '\'' % 2 = 0 := by
  induction text generalizing front with
  | nil =>
      cases front with
      | nil => rfl
      | cons first rest =>
          have sizes := congrArg List.length parts
          simp [doubledQuotes] at sizes
  | cons first rest ih =>
      cases front with
      | nil => rfl
      | cons second front =>
          by_cases quote : first = '\''
          · rw [quote, doubledQuotes_cons_quote] at parts
            obtain ⟨same, parts⟩ := List.cons.inj parts
            -- The second of two quotes cannot be the other character.
            cases front with
            | nil => exact absurd (List.cons.inj parts).1.symm other
            | cons third front =>
                obtain ⟨again, parts⟩ := List.cons.inj parts
                have known := ih parts
                rw [← same, ← again, List.count_cons_self,
                  List.count_cons_self]
                omega
          · rw [doubledQuotes_cons quote] at parts
            obtain ⟨same, inside⟩ := List.cons.inj parts
            rw [← same, List.count_cons_of_ne quote]
            exact ih inside

/-- A literal that is cut in front of another character is open. -/
theorem odd_count_of_stringLiteral {text before behind : Text}
    {character : Char} (other : character ≠ '\'')
    (parts : stringLiteral text = before ++ character :: behind) :
    before.count '\'' % 2 = 1 := by
  cases before with
  | nil => exact absurd (List.cons.inj parts).1.symm other
  | cons first front =>
      obtain ⟨same, inside⟩ := List.cons.inj parts
      have known := even_count_of_doubledQuotes other inside
      rw [← same, List.count_cons_self]
      omega

theorem countP_doubledQuotes {test : Char → Bool} (quiet : test '\'' = false)
    (text : Text) : (doubledQuotes text).countP test = text.countP test := by
  induction text with
  | nil => rfl
  | cons character rest ih =>
      by_cases quote : character = '\''
      · simp [quote, quiet, ih]
      · rw [doubledQuotes_cons quote, List.countP_cons, List.countP_cons, ih]

/-- Quotes are no parentheses. -/
theorem parenthesisBalance_stringLiteral (text : Text) :
    parenthesisBalance (stringLiteral text) = parenthesisBalance text := by
  have same : ∀ {test : Char → Bool}, test '\'' = false →
      (stringLiteral text).countP test = text.countP test := by
    intro test quiet
    rw [stringLiteral, List.countP_cons, List.countP_append,
      countP_doubledQuotes quiet]
    simp [quiet]
  rw [parenthesisBalance, same (by decide), same (by decide),
    parenthesisBalance]

/-! ## Single blanks -/

/-- Quotes may be doubled before or after blanks are made alike. -/
theorem respaced_doubledQuotes (text : Text) :
    respaced (doubledQuotes text) = doubledQuotes (respaced text) := by
  have visible : isBlank '\'' = false := by decide
  induction text with
  | nil => rfl
  | cons character rest ih =>
      by_cases quote : character = '\''
      · rw [quote, doubledQuotes_cons_quote, respaced_cons_visible visible,
          respaced_cons_visible visible, respaced_cons_visible visible, ih]
        rfl
      · have head : (doubledQuotes rest).head? = rest.head? := by
          cases rest with
          | nil => rfl
          | cons second more =>
              by_cases double : second = '\''
              · rw [double]
                rfl
              · rw [doubledQuotes_cons double]
                rfl
        rw [doubledQuotes_cons quote, respaced, respaced, head, ih]
        split
        · split
          · rfl
          · rw [doubledQuotes_cons (by decide)]
        · rw [doubledQuotes_cons quote]

/-- A text may be put in quotes before or after its blanks are made alike. -/
theorem respaced_stringLiteral (text : Text) :
    respaced (stringLiteral text) = stringLiteral (respaced text) := by
  have visible : isBlank '\'' = false := by decide
  rw [stringLiteral, respaced_cons_visible visible,
    respaced_append_cons visible, respaced_doubledQuotes]
  rfl

end Snowform
