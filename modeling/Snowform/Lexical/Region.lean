import Snowform.Text.Basic

/-!
# Lexical regions of a script

A script is code, strings, quoted identifiers, comments and dollar bodies.
`lexemes` cuts it into the smallest pieces, where every character of code is
a piece of its own; `scan` joins neighbouring code into one region.  Texts of
the regions put together are the script again.

A quote inside a quoted region is written twice.  A line comment ends before
its line feed, a block comment after the first `*/` behind its opening, and a
dollar body after the next marker equal to its first one.  What never closes
runs to the end of the script.
-/

namespace Snowform

open Text

/-- What a stretch of a script is. -/
inductive RegionKind where
  | code
  | singleQuote
  | doubleQuote
  | lineComment
  | blockComment
  | dollarQuote
  deriving DecidableEq

def RegionKind.isComment : RegionKind → Bool
  | .lineComment => true
  | .blockComment => true
  | _ => false

/-- A stretch of a script that is all of one kind, delimiters included. -/
structure Region where
  kind : RegionKind
  text : Text
  deriving DecidableEq

namespace Lexical

/-- Characters that the tag of a dollar marker is made of. -/
def isTagCharacter (character : Char) : Bool :=
  character.isAlphanum || character == '_'

/-- Characters after which a dollar sign continues a name. -/
def continuesName (character : Char) : Bool :=
  isTagCharacter character || character == '$'

/-- The rest of a quoted stretch, up to its closing quote or the end. -/
def quotedRest (quote : Char) : Text → Text
  | [] => []
  | [character] => [character]
  | character :: next :: rest =>
      if character = quote then
        if next = quote then
          character :: next :: quotedRest quote rest
        else
          [character]
      else
        character :: quotedRest quote (next :: rest)

/-- The marker `$tag$` that a text starts with. -/
def dollarMarker? : Text → Option Text
  | '$' :: rest =>
      match rest.dropWhile isTagCharacter with
      | '$' :: _ => some ('$' :: rest.takeWhile isTagCharacter ++ ['$'])
      | _ => none
  | _ => none

/-- The region other than code that a text starts with. -/
def special? (afterName : Bool) : Text → Option Region
  | '\'' :: rest => some ⟨.singleQuote, '\'' :: quotedRest '\'' rest⟩
  | '"' :: rest => some ⟨.doubleQuote, '"' :: quotedRest '"' rest⟩
  | '-' :: '-' :: rest =>
      some ⟨.lineComment, '-' :: '-' :: rest.takeWhile (· != '\n')⟩
  | '/' :: '*' :: rest =>
      some ⟨.blockComment, '/' :: '*' :: upThrough "*/" rest⟩
  | text =>
      if afterName then
        none
      else
        (dollarMarker? text).map fun marker =>
          ⟨.dollarQuote, marker ++ upThrough marker (text.drop marker.length)⟩

/--
The smallest regions of a text behind a number of characters that an earlier
region already covers.
-/
def lexemesFrom (skip : Nat) (afterName : Bool) : Text → List Region
  | [] => []
  | character :: rest =>
      match skip with
      | remaining + 1 =>
          lexemesFrom remaining (continuesName character) rest
      | 0 =>
          match special? afterName (character :: rest) with
          | some region =>
              region ::
                lexemesFrom (region.text.length - 1)
                  (continuesName character) rest
          | none =>
              ⟨.code, [character]⟩ ::
                lexemesFrom 0 (continuesName character) rest

/-- The smallest regions of a script, one for each character of code. -/
def lexemes (script : Text) : List Region :=
  lexemesFrom 0 false script

/-- Put a region in front, joining code with code. -/
def joinCode (region : Region) : List Region → List Region
  | [] => [region]
  | next :: rest =>
      if region.kind = .code ∧ next.kind = .code then
        ⟨.code, region.text ++ next.text⟩ :: rest
      else
        region :: next :: rest

/-- The regions of a script, no two of code in a row. -/
def scan (script : Text) : List Region :=
  (lexemes script).foldr joinCode []

end Lexical

end Snowform
