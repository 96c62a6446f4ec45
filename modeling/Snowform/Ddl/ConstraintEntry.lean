import Snowform.Ddl.Constraint
import Snowform.Ddl.Listing
import Snowform.Ddl.Rejection
import Snowform.Lexical.Parentheses
import Snowform.Text.Bytes
import Snowform.Text.Search

/-!
# Reading constraints

A constraint stands in the column list of a table, either as an entry of its
own or behind the column that it speaks of.  Both forms share the reference
of a foreign key and the flags that may follow.

Entries have no comments any more, so this module works on plain texts.
-/

namespace Snowform

open Text Lexical

/-! ## Flags -/

/--
Read a flag at a word, given the word behind it.  The answer says whether the
second word was part of the flag.
-/
def ConstraintFlags.read? (flags : ConstraintFlags)
    (word : Text) (next : Option Text) : Option (ConstraintFlags × Bool) :=
  let word := asciiUpper word
  let next := next.map asciiUpper
  if word = "RELY" then
    some ({ flags with rely := some true }, false)
  else if word = "NORELY" then
    some ({ flags with rely := some false }, false)
  else if word = "ENABLE" ∨ word = "ENFORCED" then
    some ({ flags with enable := some true }, false)
  else if word = "DISABLE" then
    some ({ flags with enable := some false }, false)
  else if word = "DEFERRABLE" then
    some ({ flags with deferrable := some true }, false)
  else if word = "VALIDATE" ∨ word = "NOVALIDATE" then
    some (flags, false)
  else if word = "INITIALLY" then
    some (flags, next.isSome)
  else if word = "NOT" ∧ next = some "ENFORCED" then
    some ({ flags with enable := some false }, true)
  else if word = "NOT" ∧ next = some "DEFERRABLE" then
    some ({ flags with deferrable := some false }, true)
  else
    none

/-- Read all flags of a list of words; other words are passed over. -/
def ConstraintFlags.readAll (flags : ConstraintFlags) :
    List Text → ConstraintFlags
  | [] => flags
  | [word] =>
      match flags.read? word none with
      | some (changed, _) => changed
      | none => flags
  | word :: next :: rest =>
      match flags.read? word (some next) with
      | some (changed, true) => changed.readAll rest
      | some (changed, false) => changed.readAll (next :: rest)
      | none => flags.readAll (next :: rest)

/-! ## References -/

/-- Where a scan of a referenced table stands. -/
inductive TargetState where
  /-- Between two parts of the name. -/
  | fresh
  /-- Inside double quotes. -/
  | quoted
  /-- In a part that ends at a blank or an opening parenthesis. -/
  | bare
  deriving DecidableEq

/-- Whether a character ends a name that is not quoted. -/
def endsBareName (character : Char) : Bool :=
  isBlank character || character == '('

/--
What follows a referenced table.  A quote that is closed later takes all up
to its closing quote with it.
-/
def afterTarget (state : TargetState) : Text → Text
  | [] => []
  | character :: rest =>
      match state with
      | .quoted =>
          afterTarget (if character = '"' then .fresh else .quoted) rest
      | .bare =>
          if endsBareName character then
            character :: rest
          else
            afterTarget .bare rest
      | .fresh =>
          if endsBareName character then
            character :: rest
          else if character = '"' ∧ rest.contains '"' then
            afterTarget .quoted rest
          else
            afterTarget .bare rest

/-- The number of bytes of the keyword that introduces a reference. -/
def referencesWidth : Nat := 10

/--
Read `REFERENCES`, a table and the columns that may follow it, and give the
rest of the text.  The keyword is cut off by its width in bytes, which is a
fault when its last letter was written as a long s.
-/
def readReferences? (text : Text) :
    Except Fault (Option (ForeignKeyTarget × Text)) :=
  let start := skipBlanks text
  match keyword? "REFERENCES" start >>= blanks? with
  | none => .ok none
  | some target =>
      let after := afterTarget .fresh target
      if after.length = target.length then
        .ok none
      else
        match dropBytes? referencesWidth (upTo start after) with
        | none => .error .splitCharacter
        | some written =>
            let table := QualifiedName.ofText (trim written)
            let list := skipBlanks after
            if startsWith (· == '(') list then
              .ok ((parenthesised? list).map fun parts =>
                (⟨table, identifierList parts.1⟩, parts.2))
            else
              .ok (some (⟨table, []⟩, after))

/-! ## Entries -/

/-- Whether an entry of a column list starts like a constraint. -/
def isConstraintEntry (entry : Text) : Bool :=
  let start := skipBlanks entry
  let ends := fun (rest : Option Text) =>
    rest.any fun after => !startsWith isWord after
  ends (keyword? "CONSTRAINT" start) ||
    ends (keyword? "PRIMARY" start >>= blanks? >>= keyword? "KEY") ||
    ends (keyword? "FOREIGN" start >>= blanks? >>= keyword? "KEY") ||
    ends (keyword? "UNIQUE" start) ||
    ends (keyword? "CHECK" start)

/-- Whether an entry starts with the word that names a constraint. -/
def isNamedConstraintEntry (entry : Text) : Bool :=
  let start := skipBlanks entry
  sameIgnoringCase (start.take 10) "CONSTRAINT" &&
    startsWith isBlank (start.drop 10)

/--
What follows the closing quote of a quoted constraint name, once something
stands before it.  A doubled quote is part of the name unless no later quote
could close it.
-/
def afterQuotedName? (begun : Bool) : Text → Option Text
  | [] => none
  | [character] =>
      if character = '"' ∧ begun then some [] else none
  | character :: next :: rest =>
      if character = '"' then
        if next = '"' then
          match afterQuotedName? true rest with
          | some after => some after
          | none => if begun then some (next :: rest) else none
        else if begun then
          some (next :: rest)
        else
          none
      else
        afterQuotedName? true (next :: rest)

def afterConstraintName? (text : Text) : Option Text :=
  let bare :=
    let after := text.dropWhile fun character => !endsBareName character
    if after.length = text.length then none else some after
  match text with
  | '"' :: rest => (afterQuotedName? false rest).or bare
  | _ => bare

/-- The name that an entry gives its constraint, and the rest of the entry. -/
def readConstraintName (entry : Text) : Option Text × Text :=
  match keyword? "CONSTRAINT" entry >>= blanks? with
  | none => (none, entry)
  | some named =>
      match afterConstraintName? named with
      | none => (none, entry)
      | some after => (some (unquote (upTo named after)), skipBlanks after)

/--
The kind of a constraint and the text from its parenthesis on.  `CHECK` is
met in ASCII letters only.
-/
def readConstraintKind? (text : Text) : Option (ConstraintKind × Text) :=
  let opening := fun (kind : ConstraintKind) (rest : Option Text) =>
    match rest.map skipBlanks with
    | some ('(' :: inside) => some (kind, '(' :: inside)
    | _ => none
  let check :=
    if sameIgnoringCase (text.take 5) "CHECK" then
      some (text.drop 5)
    else
      none
  (opening .primaryKey
    (keyword? "PRIMARY" text >>= blanks? >>= keyword? "KEY")).or <|
  (opening .unique (keyword? "UNIQUE" text)).or <|
  (opening .foreignKey
    (keyword? "FOREIGN" text >>= blanks? >>= keyword? "KEY")).or <|
  opening .check check

/-- What a constraint of a kind says about the text in its parentheses. -/
def ConstraintTerms.ofList (kind : ConstraintKind) (inside : Text) :
    ConstraintTerms :=
  match kind with
  | .check => { kind := kind, columns := [], expression := some (trim inside) }
  | _ => { kind := kind, columns := identifierList inside }

/-- Read an entry of a column list that is a constraint. -/
def readConstraint? (entry : Text) :
    Except Fault (Option DraftConstraint) := do
  let (name, text) := readConstraintName (trim entry)
  let parts := do
    let (kind, list) ← readConstraintKind? text
    let (inside, tail) ← parenthesised? list
    return (ConstraintTerms.ofList kind inside, tail)
  match parts with
  | none => return none
  | some (terms, tail) =>
      let finish := fun (terms : ConstraintTerms) (tail : Text) =>
        { terms with
          flags := terms.flags.readAll (words tail)
          name := name : DraftConstraint }
      if terms.kind = .foreignKey then
        match ← readReferences? tail with
        | none => return none
        | some (target, rest) =>
            return some (finish { terms with references := some target } rest)
      else
        return some (finish terms tail)

end Snowform
