import Snowform.Lexical.Mask
import Snowform.Text.Blank
import Snowform.Text.Word

/-!
# Recognising keywords and blanks

These recognisers read the start of a list and answer with the rest.  They
look only at the character that an element shows, so they work on texts and
on masked scripts alike.

Keywords are written in capitals and are met in any case.  As in Unicode case
folding, a long s counts as an S and a Kelvin sign as a K.
-/

namespace Snowform.Lexical

open Text

variable {α : Type} [Shown α]

/-- Whether an element shows a character that satisfies the test. -/
def shows (test : Char → Bool) (element : α) : Bool :=
  test (shown element)

/-- Whether a list starts with an element that satisfies the test. -/
def startsWith (test : Char → Bool) (list : List α) : Bool :=
  list.head?.any (shows test)

/-- Whether a character is a capital of a keyword in any case. -/
def isKeywordLetter (letter character : Char) : Bool :=
  character.toUpper == letter ||
    letter == 'S' && character == 'ſ' ||
    letter == 'K' && character == '\u212a'

/-- The list behind a keyword that it starts with. -/
def keyword? : Text → List α → Option (List α)
  | [], rest => some rest
  | _ :: _, [] => none
  | letter :: letters, element :: rest =>
      if isKeywordLetter letter (shown element) then
        keyword? letters rest
      else
        none

/-- The list behind a character that it starts with. -/
def character? (expected : Char) : List α → Option (List α)
  | [] => none
  | element :: rest =>
      if shown element = expected then some rest else none

/-- The list without the blanks it starts with. -/
def skipBlanks (list : List α) : List α :=
  list.dropWhile (shows isBlank)

/-- The list behind at least one blank. -/
def blanks? (list : List α) : Option (List α) :=
  if startsWith isBlank list then some (skipBlanks list) else none

/-- The list behind keywords each of which is followed by blanks. -/
def phrase? : List Text → List α → Option (List α)
  | [], rest => some rest
  | word :: others, list =>
      keyword? word list >>= blanks? >>= phrase? others

/-- Read an optional phrase: whether it is there, and what follows. -/
def optionalPhrase (phrase : List Text) (list : List α) : Bool × List α :=
  match phrase? phrase list with
  | some rest => (true, rest)
  | none => (false, list)

/-- Whether the place between two lists, the first reversed, bounds a word. -/
def isBoundary (behind ahead : List α) : Bool :=
  startsWith isWord behind != startsWith isWord ahead

/-- The list behind a keyword that is a word of its own. -/
def wholeWord? (word : Text) (behind ahead : List α) : Option (List α) :=
  if isBoundary behind ahead then
    match keyword? word ahead with
    | some rest => if startsWith isWord rest then none else some rest
    | none => none
  else
    none

end Snowform.Lexical
