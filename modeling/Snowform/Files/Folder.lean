import Snowform.Conversion
import Snowform.Files.Tree

/-!
# Converting files and folders

Every file of a folder with the right extension is converted on its own, in
the order of the paths, and its document is written beside it.  A file that
cannot be read or written is reported and does not stop the others.
-/

namespace Snowform

open Text Terraform

/-- What came of converting a file of a folder. -/
structure Converted where
  output : Path
  /-- The number of objects that were read. -/
  objects : Nat
  /-- The number of resources that were written. -/
  resources : Nat
  diagnostics : List Diagnostic
  deriving DecidableEq

/-- A file of a folder with what came of it. -/
structure Report where
  input : Path
  outcome : Except FileFailure Converted

def documentExtension : Text := "tf"

section

variable {m : Type → Type} [Monad m] [FileSystem m]

def readScript (path : Path) : m (Except FileFailure Text) := do
  match ← FileSystem.readFile path with
  | .ok content =>
      match decode? content with
      | some script => return .ok script
      | none => return .error (.undecodable path)
  | .error cause => return .error (.unreadable path cause)

def convertFile (policy : Policy) (path : Path) :
    ExceptT Fault m (Except FileFailure Conversion) := do
  match ← (readScript path : m (Except FileFailure Text)) with
  | .ok script =>
      let conversion ← ExceptT.mk (pure (Conversion.ofScript policy script))
      return .ok conversion
  | .error failure => return .error failure

/-- Convert a file and write its document beside it. -/
def convertBeside (policy : Policy) (input : Path) :
    ExceptT Fault m Report := do
  match ← convertFile policy input with
  | .error failure => return ⟨input, .error failure⟩
  | .ok conversion =>
      let output := input.withExtension documentExtension
      let written : Except OsError Unit ←
        (FileSystem.writeFile output (encode conversion.output) :
          m (Except OsError Unit))
      match written with
      | .error cause => return ⟨input, .error (.unwritable output cause)⟩
      | .ok _ =>
          return ⟨input, .ok {
            output := output
            objects := conversion.objects.length
            resources := conversion.resources.length
            diagnostics := conversion.diagnostics }⟩

def hasExtension (extension : Text) (path : Path) : Bool :=
  path.extension?.any (sameIgnoringCase extension)

/-- The files of a folder with an extension, in the order of their paths. -/
def findInputs (folder : Path) (extension : Text) :
    m (Except FileFailure (List Path)) := do
  let extension := extension.dropWhile (· == '.')
  match ← FileSystem.listFiles folder with
  | .error cause => return .error (.unlistable folder cause)
  | .ok paths =>
      let inputs := ordered Path.before (paths.filter (hasExtension extension))
      if inputs.isEmpty then
        return .error (.noInputs folder extension)
      else
        return .ok inputs

def convertFolder (policy : Policy) (folder : Path) (extension : Text) :
    ExceptT Fault m (Except FileFailure (List Report)) := do
  match ← (findInputs folder extension :
      m (Except FileFailure (List Path))) with
  | .error failure => return .error failure
  | .ok inputs => return .ok (← inputs.mapM (convertBeside policy))

end

end Snowform
