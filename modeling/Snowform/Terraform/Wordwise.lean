import Snowform.Hcl.Template
import Snowform.Terraform.Naming
import Snowform.Text.Fold
import Snowform.Text.Word

/-!
# Bodies word by word

A word of a body is a stretch of word characters with no word character next
to it.  What is exchanged in a body is told for one word at a time: the name
of a database becomes the expression for the database, and a word that ends
in the suffix of an environment loses it.  Nothing else changes, except that
signs which would open a template are doubled.

This is the meaning of substitutions; how they search for tokens is told with
them.
-/

namespace Snowform

open Text

/-! ## Words of a text -/

/-- Exchange every word of a text, and keep what stands between words. -/
def Text.exchangeWords (change : Text → Text) : Text → Text
  | [] => []
  | character :: rest =>
      if isWord character then
        change (character :: rest.takeWhile isWord) ++
          exchangeWords change (rest.dropWhile isWord)
      else
        character :: exchangeWords change rest
termination_by text => text.length
decreasing_by
  · exact Nat.lt_succ_of_le (List.dropWhile_suffix isWord).length_le
  · exact Nat.lt_succ_self rest.length

/-- Whether two texts differ at most in the case of their letters. -/
def Text.sameSpelling (first second : Text) : Bool :=
  first.map fold == second.map fold

/-! ## Templates -/

/-- Double every dollar or percent sign in front of an opening brace. -/
def Hcl.doubleOpenings : Text → Text
  | [] => []
  | character :: rest =>
      if (character = '$' ∨ character = '%') ∧ rest.head? = some '\x7b' then
        character :: character :: doubleOpenings rest
      else
        character :: doubleOpenings rest

namespace Terraform

/-! ## Words of a body -/

/--
The part of a word in front of a suffix.  There is one if the suffix ends the
word in any case and follows at least one ASCII word character, and no other
characters, again in any case.
-/
def stemOf? (suffix word : Text) : Option Text :=
  let size := word.length - suffix.length
  let stem := word.take size
  if !stem.isEmpty && stem.all (fun character => isAsciiWord (fold character)) &&
      sameSpelling suffix (word.drop size) then
    some stem
  else
    none

/-- What a word of a body becomes. -/
def rewriteWord (databases : List Text) (suffix word : Text) : Text :=
  if databases.any fun database => sameSpelling database word then
    Hcl.templateExpression databaseReference
  else
    (stemOf? suffix word).getD word

/-- What a body becomes. -/
def rewriteBody (databases : List Text) (suffix body : Text) : Text :=
  exchangeWords (rewriteWord databases suffix) (Hcl.doubleOpenings body)

end Terraform

end Snowform
