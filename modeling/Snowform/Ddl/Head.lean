import Snowform.Lexical.Keyword
import Snowform.Ddl.Rejection

/-!
# Heads of CREATE statements

A statement that creates an object starts with `CREATE`, may say `OR REPLACE`
and, for a view, `SECURE`, then names the kind of the object.  The same head
is met twice: on the statement without comments to tell what it creates, and
on the masked statement to find where the name starts.
-/

namespace Snowform

open Text Lexical

variable {α : Type} [Shown α]

/-- What is said in front of the kind of an object. -/
structure HeadFlags where
  orReplace : Bool := false
  secure : Bool := false
  deriving DecidableEq

/-- Read a head up to the keyword of a kind of object. -/
def beforeKind? (object : ObjectKind) (list : List α) :
    Option (HeadFlags × List α) := do
  let start ← phrase? ["CREATE"] (skipBlanks list)
  let (orReplace, rest) := optionalPhrase ["OR", "REPLACE"] start
  match object with
  | .view =>
      let (secure, rest) := optionalPhrase ["SECURE"] rest
      return (⟨orReplace, secure⟩, rest)
  | _ => return (⟨orReplace, false⟩, rest)

/-- Whether a statement without comments creates an object of a kind. -/
def creates (object : ObjectKind) (list : List α) : Bool :=
  match beforeKind? object list with
  | none => false
  | some (_, rest) =>
      (keyword? object.keyword rest).any (startsWith isBlank)

/-- Read a head up to the name of the object. -/
def readHead? (object : ObjectKind) (list : List α) :
    Option (HeadFlags × List α) := do
  let (flags, rest) ← beforeKind? object list
  let rest ← phrase? [object.keyword] rest
  return (flags, (optionalPhrase ["IF", "NOT", "EXISTS"] rest).2)

end Snowform
