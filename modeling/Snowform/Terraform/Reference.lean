import Snowform.Ddl.Name
import Snowform.Lexical.Keyword
import Snowform.Terraform.Naming
import Snowform.Text.Search

/-!
# References in queries and bodies

A query or a body names other objects behind words such as `FROM`.  The texts
that are searched are in capitals and without comments.  A reference may have
an expression and up to three name parts; one that is followed by a
parenthesis is the call of a function, and `FROM` inside the arguments of
some functions names no object at all.
-/

namespace Snowform.Terraform

open Text Lexical

/-! ## Names in a text -/

/-- Whether a character starts a name that is not quoted. -/
def startsPart (character : Char) : Bool :=
  character.isUpper || character == '_'

/-- Whether a character continues a name that is not quoted. -/
def continuesPart (character : Char) : Bool :=
  startsPart character || character.isDigit || character == '$'

/-- The text behind a part of a name. -/
def afterPart? : Text → Option Text
  | [] => none
  | character :: rest =>
      if character = '"' then
        match rest.dropWhile (· != '"') with
        | [] => none
        | _ :: after =>
            if rest.head? = some '"' then none else some after
      else if startsPart character then
        some (rest.dropWhile continuesPart)
      else
        none

/-- The text behind further parts, at most a number of them. -/
def afterMoreParts : Nat → Text → Text
  | 0, text => text
  | count + 1, text =>
      match character? '.' text >>= afterPart? with
      | some after => afterMoreParts count after
      | none => text

/-- The text behind one to three parts that are joined by dots. -/
def afterChain? (text : Text) : Option Text :=
  (afterPart? text).map (afterMoreParts 2)

/-- The text behind an expression and a dot, which may start a name. -/
def skipExpression (text : Text) : Text :=
  let skipped := do
    let inside ← dropStart? ['$', '\x7b'] text
    dropStart? ['\x7d', '.'] (inside.dropWhile (· != '\x7d'))
  skipped.getD text

/-- What a text names behind a keyword. -/
structure Mention where
  keyword : Text
  /-- The parts of the name as they are written. -/
  chain : Text
  /-- Whether a parenthesis follows. -/
  opensList : Bool

/-- A mention of an object behind a keyword at a place. -/
def mention? (keyword : Text) : Recogniser Char Mention :=
  fun behind ahead => do
    let rest ←
      if isBoundary behind ahead then dropStart? keyword ahead else none
    let start := skipExpression (← blanks? rest)
    let after ← afterChain? start
    match character? '(' (skipBlanks after) with
    | some inside => some (⟨keyword, upTo start after, true⟩, inside)
    | none => some (⟨keyword, upTo start after, false⟩, after)

/-- A mention of an object behind one of several keywords at a place. -/
def anyMention? (keywords : List Text) : Recogniser Char Mention :=
  fun behind ahead =>
    keywords.findSome? fun keyword => mention? keyword behind ahead

/-! ## Arguments of functions -/

/-- Functions in whose arguments `FROM` may stand. -/
def fromFunctions : List Text :=
  ["EXTRACT", "TRIM", "SUBSTRING", "SUBSTR", "POSITION", "OVERLAY"]

/--
The word before the innermost parenthesis that is open at a place, given the
text before the place, nearest first.
-/
def enclosingWord? (closed : Nat) : Text → Option Text
  | [] => none
  | character :: rest =>
      if character = ')' then
        enclosingWord? (closed + 1) rest
      else if character = '(' then
        match closed with
        | 0 => some ((rest.dropWhile isBlank).takeWhile isAsciiWord).reverse
        | outer + 1 => enclosingWord? outer rest
      else
        enclosingWord? closed rest

/-- Whether a place lies in the arguments of a function with `FROM`. -/
def insideFromFunction (behind : Text) : Bool :=
  (enclosingWord? 0 behind).any fromFunctions.contains

/-! ## References -/

/-- Words behind a keyword that name no object. -/
def nonObjectWords : List Text :=
  ["LATERAL", "TABLE", "VALUES", "SELECT"]

/-- The keywords whose mention is the call of a function before a list. -/
def callingKeywords : List Text :=
  ["FROM", "JOIN"]

/-- A name whose parts are identifiers of resources. -/
structure NormalName where
  database : Option Text
  schema : Option Text
  name : Text
  deriving DecidableEq

namespace NormalName

/-- The identifiers of the parts of a name. -/
def ofName (policy : Policy) (name : QualifiedName) : NormalName where
  database := name.database.map identifier
  schema := name.schema.map policy.schema
  name := identifier name.name

/-- The parts that are there, the database first. -/
def parts (name : NormalName) : List Text :=
  name.database.toList ++ name.schema.toList ++ [name.name]

end NormalName

/-- The object that a mention refers to, given the text before it. -/
def Mention.reference? (policy : Policy) (mention : Mention)
    (behind : Text) : Option NormalName :=
  if mention.opensList && callingKeywords.contains mention.keyword then
    none
  else if insideFromFunction behind then
    none
  else if nonObjectWords.contains mention.chain then
    none
  else
    some (NormalName.ofName policy (QualifiedName.ofText mention.chain))

/-- The objects that a text refers to behind keywords, in order. -/
def references (policy : Policy) (keywords : List Text) (text : Text) :
    List NormalName :=
  (occurrences (anyMention? keywords) text).filterMap fun found =>
    found.2.reference? policy found.1

/-! ## Common table expressions -/

def afterAsOpening? (text : Text) : Option Text :=
  (dropStart? "AS" text).map skipBlanks >>= character? '('

/-- The text behind a list of column names, which may be missing. -/
def skipColumnList (text : Text) : Text :=
  match text with
  | '(' :: inside =>
      match inside.dropWhile (· != ')') with
      | _ :: after => skipBlanks after
      | [] => text
  | _ => text

/--
A name that is defined at the start of a text, and the text behind the
opening of its query.  A bare name may end in the `AS` that introduces the
query.
-/
def definition? (text : Text) : Option (Text × Text) := do
  let after ← afterPart? text
  let name := upTo text after
  match afterAsOpening? (skipColumnList (skipBlanks after)) with
  | some inside => some (name, inside)
  | none => do
      let shorter ← dropEnd? "AS" name
      let inside ← character? '(' (skipBlanks after)
      if shorter.isEmpty || name.head? = some '"' then
        none
      else
        some (shorter, inside)

/-- A definition behind `WITH`, perhaps recursive, or behind a comma. -/
def tableExpression? : Recogniser Char Text := fun behind ahead =>
  let afterWith :=
    if isBoundary behind ahead then
      dropStart? "WITH" ahead >>= blanks?
    else
      none
  let recursive := afterWith >>= dropStart? "RECURSIVE" >>= blanks?
  let afterComma := (character? ',' ahead).map skipBlanks
  ((recursive >>= definition?).or (afterWith >>= definition?)).or
    (afterComma >>= definition?)

/-- The names of the common table expressions of a query. -/
def tableExpressions (query : Text) : List Text :=
  (occurrences tableExpression? query).map fun found =>
    identifier (unquote found.2)

end Snowform.Terraform
