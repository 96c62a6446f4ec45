import Snowform.Text.Basic

/-!
# Byte offsets

Places in a text are counted in bytes of its UTF-8 form.  A place inside a
character or behind the end is no place, and cutting there gives nothing.
-/

namespace Snowform.Text

/-- The number of bytes that the elements of a list cover together. -/
def coveredSize {α : Type} (width : α → Nat) : List α → Nat
  | [] => 0
  | element :: rest => width element + coveredSize width rest

/-- The number of bytes of a text in UTF-8. -/
def byteSize (text : Text) : Nat :=
  coveredSize Char.utf8Size text

/--
Cut a list after a number of bytes.  There is no cut inside an element and
none behind the end.
-/
def cutAt? {α : Type} (width : α → Nat) (bytes : Nat) :
    List α → Option (List α × List α)
  | [] => if bytes = 0 then some ([], []) else none
  | element :: rest =>
      if bytes = 0 then
        some ([], element :: rest)
      else if width element ≤ bytes then
        (cutAt? width (bytes - width element) rest).map fun parts =>
          (element :: parts.1, parts.2)
      else
        none

/-- The text behind a number of bytes, if that is a place of the text. -/
def dropBytes? (bytes : Nat) (text : Text) : Option Text :=
  (cutAt? Char.utf8Size bytes text).map Prod.snd

/-- The text between two byte offsets, if both are places of the text. -/
def slice? (start stop : Nat) (text : Text) : Option Text := do
  let rest ← dropBytes? start text
  let (inside, _) ← cutAt? Char.utf8Size (stop - start) rest
  return inside

/-- The element of a list that covers a byte. -/
def coverAt? {α : Type} (width : α → Nat) (byte : Nat) : List α → Option α
  | [] => none
  | element :: rest =>
      if byte < width element then
        some element
      else
        coverAt? width (byte - width element) rest

/-- The character that covers a byte of a text. -/
def characterAt? (text : Text) (byte : Nat) : Option Char :=
  coverAt? Char.utf8Size byte text

end Snowform.Text
