import Snowform.Ddl.View

/-!
# CREATE PROCEDURE

Between its parameter list and its body a procedure has clauses in any order:
the return type, the language, a comment and whose rights it runs with.  The
body starts behind the first word `AS` that does not belong to `EXECUTE AS`.
It is kept as it is written, less one layer of delimiters.
-/

namespace Snowform

open Text Lexical

structure Parameter where
  name : Text
  dataType : Text
  defaultValue : Option Text := none
  deriving DecidableEq

/-- Whose rights a procedure runs with. -/
inductive ExecuteAs where
  | owner
  | caller
  deriving DecidableEq

/-- The word for whose rights a procedure runs with. -/
def ExecuteAs.keyword : ExecuteAs → Text
  | .owner => "OWNER"
  | .caller => "CALLER"

/-- The language of a procedure that names none. -/
def defaultLanguage : Text := "SQL"

structure Procedure where
  name : QualifiedName
  parameters : List Parameter := []
  returnType : Option Text := none
  /-- The body without its delimiters. -/
  body : Text := []
  comment : Option Text := none
  language : Text := defaultLanguage
  executeAs : Option ExecuteAs := none
  deriving DecidableEq

namespace Procedure

/-- Whether the body is written in JavaScript. -/
def isJavascript (procedure : Procedure) : Bool :=
  sameIgnoringCase procedure.language "JAVASCRIPT"

/-! ## Parameters -/

def defaultKeyword? : Recogniser Char Unit := fun behind ahead =>
  (wholeWord? "DEFAULT" behind ahead).map fun rest => ((), rest)

/-- Read a parameter: a name, a type and perhaps a default. -/
def readParameter (entry : Text) : Parameter :=
  let (name, rest) := leadingIdentifier entry
  match findFirst defaultKeyword? [] rest with
  | none => { name := unquote name, dataType := trim rest }
  | some (before, _, value) =>
      let value := trim value
      { name := unquote name
        dataType := trim (rest.take before.length)
        defaultValue := if value.isEmpty then none else some value }

def readParameters (list : Text) : List Parameter :=
  (splitCommas (stripComments list)).map readParameter

/-! ## Clauses -/

section Clauses

variable {α : Type} [Shown α]

/-- Whether the elements before a place, nearest first, end in `EXECUTE`. -/
def followsExecute (behind : List α) : Bool :=
  match keyword? "ETUCEXE" (skipBlanks behind) with
  | some before => !startsWith isAsciiWord before
  | none => false

/-- Whose rights the text behind `EXECUTE AS` names. -/
def readExecuteAs (list : List α) : ExecuteAs :=
  if asciiUpper (leadingIdentifier (list.map shown)).1 = "OWNER" then
    .owner
  else
    .caller

/--
Find the word `AS` that introduces the body: whose rights were named before
it, the number of elements before it, and what follows it.
-/
def findBody? (mode : Option ExecuteAs) (behind : List α) :
    List α → Option (Option ExecuteAs × Nat × List α)
  | [] => none
  | element :: rest =>
      match wholeWord? "AS" behind (element :: rest) with
      | none => findBody? mode (element :: behind) rest
      | some after =>
          if followsExecute behind then
            findBody? (some (readExecuteAs after)) (element :: behind) rest
          else
            some (mode, behind.length, after)

/-- Whether a character starts a word of a return type. -/
def startsTypeWord (character : Char) : Bool :=
  character.isAlpha || character == '_' ||
    character == 'ſ' || character == '\u212a'

def continuesTypeWord (character : Char) : Bool :=
  startsTypeWord character || character.isDigit

/-- A clause `RETURNS` at a place, up to its type. -/
def returns? : Recogniser α Unit := fun behind ahead => do
  let keyword ←
    if isBoundary behind ahead then keyword? "RETURNS" ahead else none
  let word ← blanks? keyword
  if startsWith startsTypeWord word then some ((), word) else none

/-- A clause `LANGUAGE` at a place, with its word as it is seen. -/
def language? : Recogniser α Text := fun behind ahead => do
  let keyword ←
    if isBoundary behind ahead then keyword? "LANGUAGE" ahead else none
  let word ← blanks? keyword
  if startsWith isWord word then
    some ((word.takeWhile (shows isWord)).map shown,
      word.dropWhile (shows isWord))
  else
    none

/--
The return type that a header names, cut from the text that the header
starts.  The parentheses of a type may reach behind the header.
-/
def returnType? (header text : List α) : Option (List α) := do
  let (_, _, word) ← findFirst returns? [] header
  let start := text.drop (header.length - word.length)
  let after := word.dropWhile (shows continuesTypeWord)
  let list := skipBlanks after
  if startsWith (· == '(') list then
    let (_, rest) ← parenthesised? (text.drop (header.length - list.length))
    return upTo start rest
  else
    return upTo word after

/--
The language that a header names outside parentheses.  A table that is
returned may have a column of this name.
-/
def languageOf (header : List α) : Text :=
  let named := (occurrences language? header).find? fun clause =>
    parenthesisBalance clause.1 == 0
  (named.map Prod.snd).getD defaultLanguage

end Clauses

/-! ## The body -/

/-- Remove one layer of delimiters from a body and trim it. -/
def stripDelimiters (body : Text) : Text :=
  let marker := (dollarMarker? body).getD []
  if !marker.isEmpty ∧ 2 * marker.length ≤ body.length ∧
      marker.isSuffixOf body then
    trim ((body.drop marker.length).take (body.length - 2 * marker.length))
  else
    match body with
    | first :: second :: rest =>
        let inside := (second :: rest).dropLast
        if body.getLast? = some first then
          if first = '\'' then
            replaceAll "''" "'" (trim inside)
          else if first = '"' ∨ first = '/' then
            trim inside
          else
            body
        else
          body
    | _ => body

/-! ## The statement -/

def read (statement : Text) : Reading Procedure := do
  let (_, start) ← Reading.require (.missingName .procedure)
    (readHead? .procedure (cells statement))
  let (name, rest) ← readName .procedure start
  let list := rest.dropWhile (shows (· != '('))
  if list.isEmpty then
    Reading.reject .missingParameterList
  else
    let (inside, tail) ← Reading.require
      (.unbalancedParentheses .parameters) (parenthesised? list)
    let parameters := readParameters (← readSource inside)
    let (mode, before, body) ← Reading.require
      (.missingBody .procedure) (findBody? none [] tail)
    let header := tail.take before
    let returnType ← (returnType? header tail).mapM readSource
    let written ← readSource (dropFinalBlanks body)
    return {
      name := name
      parameters := parameters
      returnType := returnType
      body := stripDelimiters (trim written)
      comment := ← Reading.ofFault (findComment header)
      language := languageOf header
      executeAs := mode }

end Procedure

end Snowform
