import Snowform.Text.Bytes

/-!
# Paths

A path is kept as it is written, so that messages show it unchanged.  Its
components stand between slashes.  The extension of a file name is what
follows its last dot, unless the name starts with that dot.  A component and
a whole path have a greatest length in bytes.
-/

namespace Snowform

open Text

/-- A path as it is written. -/
structure Path where
  text : Text
  deriving DecidableEq

namespace Path

/-- The components of a path, without the empty ones. -/
def components (path : Path) : List Text :=
  (piecesAt (· == '/') path.text).filter fun component => !component.isEmpty

def isAbsolute (path : Path) : Bool :=
  path.text.head? == some '/'

/-- Whether a path can only name a folder, since it ends in a slash. -/
def endsInSlash (path : Path) : Bool :=
  path.text.getLast? == some '/'

/-- The path of something in a folder. -/
def join (path : Path) (name : Text) : Path :=
  if path.text.isEmpty || path.endsInSlash then
    ⟨path.text ++ name⟩
  else
    ⟨path.text ++ '/' :: name⟩

def fileName (path : Path) : Text :=
  path.components.getLast?.getD []

/-- Split a file name at its last dot, unless the name starts with it. -/
def splitFileName (name : Text) : Text × Option Text :=
  match (piecesAt (· == '.') name).reverse with
  | last :: first :: others =>
      let stem := ['.'].intercalate (first :: others).reverse
      if stem.isEmpty then (name, none) else (stem, some last)
  | _ => (name, none)

def extension? (path : Path) : Option Text :=
  (splitFileName path.fileName).2

/--
A file name with another extension.  Where only two dots are left without the
extension, they name the folder around the file and get no other one.
-/
def nameWithExtension (name extension : Text) : Text :=
  match splitFileName name with
  | (['.'], some _) => ".."
  | (stem, _) => stem ++ '.' :: extension

def withExtension (path : Path) (extension : Text) : Path :=
  let name := path.fileName
  let folder := (dropEnd? name path.text).getD path.text
  ⟨folder ++ nameWithExtension name extension⟩

/-- The greatest number of bytes of a component. -/
def componentLimit : Nat := 255

/-- The greatest number of bytes of a path. -/
def pathLimit : Nat := 4095

/-- Whether a component is longer than any name. -/
def isTooLongComponent (component : Text) : Bool :=
  componentLimit < byteSize component

/-- Whether a path is longer than any path that is looked up. -/
def isTooLong (path : Path) : Bool :=
  pathLimit < byteSize path.text

def before (first second : Path) : Bool :=
  decide (first.components < second.components)

end Path

end Snowform
