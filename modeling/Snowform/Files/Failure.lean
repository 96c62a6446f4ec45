import Snowform.Files.Path

/-!
# Failures of file operations

The operating system refuses an operation for a reason; a conversion fails
because of such a refusal, because bytes have no text or because there is
nothing to convert.  A failure
has a message and a list of causes, each the cause of the one before it.
-/

namespace Snowform

/-- Why the operating system refuses an operation. -/
inductive OsError where
  | notFound
  | notFolder
  | isFolder
  | nameTooLong
  | other (message : Text)
  deriving DecidableEq

/-- The wording of a refusal. -/
def OsError.message : OsError → Text
  | .notFound => "No such file or directory (os error 2)"
  | .notFolder => "Not a directory (os error 20)"
  | .isFolder => "Is a directory (os error 21)"
  | .nameTooLong => "File name too long (os error 36)"
  | .other message => message

/-- Why files are not converted. -/
inductive FileFailure where
  | unreadable (path : Path) (cause : OsError)
  | undecodable (path : Path)
  | unwritable (path : Path) (cause : OsError)
  | unlistable (path : Path) (cause : OsError)
  | noInputs (path : Path) (extension : Text)
  deriving DecidableEq

namespace FileFailure

def message : FileFailure → Text
  | .unreadable path _ => ("Failed to read SQL file: " : Text) ++ path.text
  | .undecodable path =>
      ("SQL file is neither UTF-8 nor Windows-1252: " : Text) ++ path.text
  | .unwritable path _ =>
      ("Failed to write Terraform file: " : Text) ++ path.text
  | .unlistable path _ => ("Failed to walk directory: " : Text) ++ path.text
  | .noInputs path extension =>
      ("No ." : Text) ++ extension ++ (" files found under " : Text) ++
        path.text

/-- The wordings of the causes of a failure, the nearest first. -/
def causes : FileFailure → List Text
  | .unreadable _ cause => [cause.message]
  | .undecodable _ => []
  | .unwritable _ cause => [cause.message]
  | .unlistable path cause =>
      [("IO error for operation on " : Text) ++ path.text ++ (": " : Text) ++
        cause.message, cause.message]
  | .noInputs _ _ => []

end FileFailure

end Snowform
