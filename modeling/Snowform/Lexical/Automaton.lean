import Snowform.Lexical.Region
import Snowform.Text.Bytes

/-!
# The automaton of lexical modes

The regions of a script can also be told character by character.  An
automaton is in one mode at a time; it looks at the character behind and at
the characters ahead, says of what kind the next character is, and changes
its mode.  Delimiters of several characters and doubled quotes are read in
one go.

The automaton knows nothing of regions and never jumps ahead to an end.
-/

namespace Snowform

open Text

/-- What an automaton is inside of. -/
inductive Mode where
  | code
  | singleQuote
  | doubleQuote
  | lineComment
  | blockComment
  | dollarQuote (tag : Text)
  deriving DecidableEq

namespace Mode

/-- The kind of the characters inside of what a mode stands for. -/
def kind : Mode → RegionKind
  | .code => .code
  | .singleQuote => .singleQuote
  | .doubleQuote => .doubleQuote
  | .lineComment => .lineComment
  | .blockComment => .blockComment
  | .dollarQuote _ => .dollarQuote

/-- What opens that which a mode stands for. -/
def opening : Mode → Text
  | .code => []
  | .singleQuote => ['\'']
  | .doubleQuote => ['"']
  | .lineComment => ['-', '-']
  | .blockComment => ['/', '*']
  | .dollarQuote tag => '$' :: tag ++ ['$']

/-- The tag in front of the next dollar sign, if nothing else is there. -/
def tag? : Text → Option Text
  | [] => none
  | character :: rest =>
      if character = '$' then
        some []
      else if Lexical.isTagCharacter character then
        (tag? rest).map (character :: ·)
      else
        none

/-- The mode that the start of a text opens in code. -/
def openedBy? (afterName : Bool) (text : Text) : Option Mode :=
  match text with
  | '\'' :: _ => some .singleQuote
  | '"' :: _ => some .doubleQuote
  | '-' :: '-' :: _ => some .lineComment
  | '/' :: '*' :: _ => some .blockComment
  | '$' :: rest => if afterName then none else (tag? rest).map .dollarQuote
  | _ => none

/--
Read on in a mode: the kind of the next character, the number of characters
behind it that are read with it, and the mode after them.
-/
def read (mode : Mode) (behind : Option Char) (text : Text) :
    RegionKind × Nat × Mode :=
  match mode, text with
  | .code, text =>
      match openedBy? (behind.any Lexical.continuesName) text with
      | some opened => (opened.kind, opened.opening.length - 1, opened)
      | none => (.code, 0, .code)
  | .singleQuote, '\'' :: '\'' :: _ => (.singleQuote, 1, .singleQuote)
  | .singleQuote, '\'' :: _ => (.singleQuote, 0, .code)
  | .singleQuote, _ => (.singleQuote, 0, .singleQuote)
  | .doubleQuote, '"' :: '"' :: _ => (.doubleQuote, 1, .doubleQuote)
  | .doubleQuote, '"' :: _ => (.doubleQuote, 0, .code)
  | .doubleQuote, _ => (.doubleQuote, 0, .doubleQuote)
  | .lineComment, '\n' :: _ => (.code, 0, .code)
  | .lineComment, _ => (.lineComment, 0, .lineComment)
  | .blockComment, '*' :: '/' :: _ => (.blockComment, 1, .code)
  | .blockComment, _ => (.blockComment, 0, .blockComment)
  | .dollarQuote tag, text =>
      if (opening (.dollarQuote tag)).isPrefixOf text then
        (.dollarQuote, tag.length + 1, .code)
      else
        (.dollarQuote, 0, .dollarQuote tag)

/--
The kinds of the characters of a text, the first of which are still read with
an earlier one that has the given kind.
-/
def kindsFrom (held : Nat) (kind : RegionKind) (mode : Mode)
    (behind : Option Char) : Text → List RegionKind
  | [] => []
  | character :: rest =>
      match held with
      | remaining + 1 =>
          kind :: kindsFrom remaining kind mode (some character) rest
      | 0 =>
          let (next, others, after) := mode.read behind (character :: rest)
          next :: kindsFrom others next after (some character) rest

def kinds (script : Text) : List RegionKind :=
  kindsFrom 0 .code .code none script

/-- The kind that the automaton gives to a byte of a script. -/
def kindAt? (script : Text) (byte : Nat) : Option RegionKind :=
  (coverAt? (fun shown => shown.1.utf8Size) byte
    (script.zip (kinds script))).map Prod.snd

end Mode

end Snowform
