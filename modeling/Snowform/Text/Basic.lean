/-!
# Texts and cutting them into pieces

A text is the list of its characters, so that every operation of the library
is an ordinary list function.  A string literal may stand where a text is
expected.

`pieces` cuts a list at its separators.  Whether an element separates may
depend on a state that every element advances, which covers lists with
quotes and parentheses as well as plain ones.  `replaceAll` exchanges every
occurrence of a fixed pattern, from left to right and without looking at what
it has written.
-/

namespace Snowform

/-- A text is the list of its characters. -/
abbrev Text := List Char

/-- A string literal read as a text. -/
instance : Coe String Text := ⟨String.toList⟩

namespace Text

/-- Put an element in front of the first piece. -/
def consFirst {α : Type} (element : α) : List (List α) → List (List α)
  | [] => [[element]]
  | first :: others => (element :: first) :: others

/-- Cut a list at its separators, which are dropped; there is always a piece. -/
def pieces {σ α : Type}
    (separates : σ → α → Bool) (advance : σ → α → σ)
    (state : σ) : List α → List (List α)
  | [] => [[]]
  | element :: rest =>
      if separates state element then
        [] :: pieces separates advance (advance state element) rest
      else
        consFirst element
          (pieces separates advance (advance state element) rest)

/-- Cut a list at every element that satisfies the test. -/
def piecesAt {α : Type} (separates : α → Bool) (list : List α) :
    List (List α) :=
  pieces (fun _ element => separates element) (fun state _ => state) () list

/-- Drop the longest final stretch whose elements satisfy the test. -/
def dropEndWhile {α : Type} (test : α → Bool) : List α → List α
  | [] => []
  | element :: rest =>
      match dropEndWhile test rest with
      | [] => if test element then [] else [element]
      | kept => element :: kept

/-- The text without the pattern it starts with, if it starts with it. -/
def dropStart? (pattern text : Text) : Option Text :=
  if pattern.isPrefixOf text then some (text.drop pattern.length) else none

/-- The text without the pattern it ends with, if it ends with it. -/
def dropEnd? (pattern text : Text) : Option Text :=
  if pattern.isSuffixOf text then
    some (text.take (text.length - pattern.length))
  else
    none

/--
Exchange the pattern for the replacement, skipping the given number of
characters first.
-/
def replaceFrom (pattern replacement : Text) (skip : Nat) : Text → Text
  | [] => []
  | character :: rest =>
      match skip with
      | remaining + 1 => replaceFrom pattern replacement remaining rest
      | 0 =>
          if pattern.isPrefixOf (character :: rest) then
            replacement ++
              replaceFrom pattern replacement (pattern.length - 1) rest
          else
            character :: replaceFrom pattern replacement 0 rest

/--
Exchange every occurrence of a non-empty pattern, from left to right; what
has been replaced is not looked at again.
-/
def replaceAll (pattern replacement text : Text) : Text :=
  replaceFrom pattern replacement 0 text

/-- The text up to and with the first occurrence of the pattern, else all. -/
def upThrough (pattern : Text) : Text → Text
  | [] => []
  | character :: rest =>
      if pattern.isPrefixOf (character :: rest) then
        pattern
      else
        character :: upThrough pattern rest

/-- ASCII letters in upper case, every other character as it is. -/
def asciiUpper (text : Text) : Text :=
  text.map Char.toUpper

/-- ASCII letters in lower case, every other character as it is. -/
def asciiLower (text : Text) : Text :=
  text.map Char.toLower

/-- Whether two texts differ at most in the case of ASCII letters. -/
def sameIgnoringCase (first second : Text) : Bool :=
  asciiUpper first == asciiUpper second

def lineFeeds (text : Text) : Nat :=
  text.count '\n'

end Text

end Snowform
