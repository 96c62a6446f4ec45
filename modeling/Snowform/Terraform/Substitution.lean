import Snowform.Hcl.Template
import Snowform.Lexical.Keyword
import Snowform.Ordered
import Snowform.Terraform.Naming
import Snowform.Text.Bytes
import Snowform.Text.Fold
import Snowform.Text.Search

/-!
# Substitutions in bodies

The queries of views and the bodies of procedures are embedded as templates.
First everything in them that would open a template is escaped.  Then the
names of databases are exchanged for the expression that stands for the
database, and last words lose the suffix of their environment.

Names and suffixes are met in any case and only as whole words, or at the end
of a word.  Where several could be met, the longer spelling is tried first.
-/

namespace Snowform.Terraform

open Text Lexical Hcl

/-- The characters that a token spells with a backslash when it is ordered. -/
def isPatternMark (character : Char) : Bool :=
  ("\\.+*?()|[]\x7b\x7d^$#&-~" : Text).contains character

/-- A token as it is spelled when tokens are ordered. -/
def patternSpelling (token : Text) : Text :=
  token.flatMap fun character =>
    if isPatternMark character then ['\\', character] else [character]

/-- Whether a token is tried before another one: the longer one is. -/
def tokenBefore (first second : Text) : Bool :=
  let first := patternSpelling first
  let second := patternSpelling second
  byteSize second < byteSize first ||
    byteSize second == byteSize first && decide (first < second)

/-- The tokens in the order in which they are tried, without the blank ones. -/
def orderedTokens (tokens : List Text) : List Text :=
  ordered tokenBefore ((tokens.map trim).filter fun token => !token.isEmpty)

/--
The text behind a token that it starts with in any case, if a word starts or
ends there.  The text before the token is given nearest first.
-/
def token? : Text → (behind ahead : Text) → Option Text
  | [], behind, rest => if isBoundary behind rest then some rest else none
  | _ :: _, _, [] => none
  | letter :: letters, behind, character :: rest =>
      if sameLetter letter character then
        token? letters (character :: behind) rest
      else
        none

/-- The text behind the first token that a text starts with. -/
def anyToken? (tokens : List Text) (text : Text) : Option Text :=
  tokens.findSome? fun token => token? token [] text

/-- A database name at a place, exchanged for the expression. -/
def database? (tokens : List Text) : Recogniser Char Text :=
  fun behind ahead => do
    let rest ← if isBoundary behind ahead then anyToken? tokens ahead else none
    some (templateExpression databaseReference, rest)

/-- Whether a character belongs to a word that can lose a suffix. -/
def isStemCharacter (character : Char) : Bool :=
  isAsciiWord character || character == 'ſ' || character == '\u212a'

/-- The shortest start of a text that a suffix follows. -/
def stem? (suffixes : List Text) : Text → Option (Text × Text)
  | [] => none
  | character :: rest =>
      if isStemCharacter character then
        match anyToken? suffixes rest with
        | some after => some ([character], after)
        | none =>
            (stem? suffixes rest).map fun parts =>
              (character :: parts.1, parts.2)
      else
        none

/-- A word with a suffix at a place, exchanged for the word without it. -/
def suffixed? (suffixes : List Text) : Recogniser Char Text :=
  fun behind ahead =>
    if isBoundary behind ahead then stem? suffixes ahead else none

/-- What is exchanged in the bodies of a conversion. -/
structure Substitution where
  /-- The names of databases, in the order in which they are tried. -/
  databases : List Text
  /-- The suffixes of environments, in the order in which they are tried. -/
  suffixes : List Text
  deriving DecidableEq

namespace Substitution

/-- The substitution for names of databases and suffixes in any order. -/
def ofTokens (databases suffixes : List Text) : Substitution :=
  ⟨orderedTokens databases, orderedTokens suffixes⟩

/-- A body with everything exchanged. -/
def apply (substitution : Substitution) (body : Text) : Text :=
  substitute (suffixed? substitution.suffixes)
    (substitute (database? substitution.databases) (escapeTemplate body))

end Substitution

end Snowform.Terraform
