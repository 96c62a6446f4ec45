import Snowform.Hcl.Quoted
import Mathlib.Data.List.DropRight

/-!
# Escapes of quoted values

The escapes in the order in which they are put in, each of them in a pass of
its own over the whole text, and the reader that takes them back again.
-/

namespace Snowform.Hcl

open Text

/-- The characters with an escape, and the letters that stand for them. -/
def escapes : List (Char × Char) :=
  [('\\', '\\'), ('"', '"'), ('\'', '\''), ('\n', 'n'), ('\r', 'r'),
    ('\t', 't'), ('$', '$'), ('\x00', '0')]

/-- Put the escapes of a table into a text, one after the other. -/
def escapeInPasses (table : List (Char × Char)) (text : Text) : Text :=
  table.foldl
    (fun written escape => replaceAll [escape.1] ['\\', escape.2] written) text

/-- The text that is written with escapes, if there are no others in it. -/
def decoded? : Text → Option Text
  | [] => some []
  | '\\' :: rest =>
      match rest with
      | [] => none
      | letter :: behind => do
          let character ← (escapes.map Prod.swap).lookup letter
          let text ← decoded? behind
          return character :: text
  | character :: rest => do
      let text ← decoded? rest
      return character :: text

/-- The number of backslashes that a text ends with. -/
def finalBackslashes (text : Text) : Nat :=
  (text.rtakeWhile (· == '\\')).length

end Snowform.Hcl
