import Snowform.Command.Arguments
import Snowform.Files.Folder

/-!
# Running commands

A command that runs to its end prints documents or reports; one that fails
prints the failure with its causes.  What is printed is part of the outcome.
-/

namespace Snowform.Command

open Text Terraform

/-- What a run of the program leaves behind, apart from files. -/
structure Outcome where
  exitCode : Nat := 0
  /-- What is printed on standard output. -/
  output : Text := []
  /-- What is printed on standard error. -/
  errors : Text := []
  deriving DecidableEq

def line (text : Text) : Text :=
  text ++ ['\n']

/-! ## Wording -/

/-- The lines of a cause, indented as far as what stands before the first. -/
def causeLines (lead cause : Text) : Text :=
  line (lead ++
    ('\n' :: List.replicate lead.length ' ').intercalate
      (piecesAt (· == '\n') cause))

/-- The causes of a failure, numbered if there are several. -/
def causesText : List Text → Text
  | [] => []
  | [cause] => causeLines "    " cause
  | causes =>
      causes.zipIdx.flatMap fun (cause, index) =>
        causeLines (("    " : Text) ++ decimal index ++ (": " : Text)) cause

/-- A failure that ends the program, with its causes. -/
def failureText (message : Text) (causes : List Text) : Text :=
  line (("Error: " : Text) ++ message) ++
    if causes.isEmpty then
      []
    else
      line [] ++ line "Caused by:" ++ causesText causes

/-- The outcome of a failure, behind what was printed before. -/
def failed (errors message : Text) (causes : List Text) : Outcome where
  exitCode := 1
  errors := errors ++ failureText message causes

def skippedLine (margin : Text) (diagnostic : Diagnostic) : Text :=
  line (margin ++ ("Skipped " : Text) ++ diagnostic.message)

/-- What is said about a conversion. -/
def conversionText (conversion : Conversion) : Text :=
  line (("Converted " : Text) ++ decimal conversion.objects.length ++
    (" objects into " : Text) ++ decimal conversion.resources.length ++
    (" resources" : Text)) ++
  conversion.diagnostics.flatMap (skippedLine [])

/-- The line about a file of a folder. -/
def reportLine (report : Report) : Text :=
  match report.outcome with
  | .ok converted =>
      line (report.input.text ++ (" -> " : Text) ++ converted.output.text ++
        (" (" : Text) ++ decimal converted.objects ++ (" objects, " : Text) ++
        decimal converted.resources ++ (" resources)" : Text))
  | .error failure =>
      line (report.input.text ++ (" failed: " : Text) ++
        (": " : Text).intercalate (failure.message :: failure.causes))

/-- What is said about the statements of a file of a folder. -/
def reportDetails (report : Report) : Text :=
  match report.outcome with
  | .ok converted => converted.diagnostics.flatMap (skippedLine "  ")
  | .error _ => []

/-- The number of files that were converted. -/
def convertedCount (reports : List Report) : Nat :=
  reports.countP fun report => report.outcome.isOk

def folderOutcome (verbose : Bool) (reports : List Report) : Outcome where
  output := reports.flatMap reportLine ++
    line (("Converted " : Text) ++ decimal (convertedCount reports) ++
      (" of " : Text) ++ decimal reports.length ++ (" files" : Text))
  errors := if verbose then reports.flatMap reportDetails else []

/-- How the program is used. -/
def usage : Text :=
  line "Usage: snowform convert --input FILE [--output FILE] [OPTIONS]" ++
  line "       snowform convert-dir --dir FOLDER [--extension EXT] [OPTIONS]" ++
  line "Options: --no-schema-prefix, --database-token NAME, --verbose"

/-! ## Running -/

section

variable {m : Type → Type} [Monad m] [FileSystem m]

/-- Write the document of a conversion, or print it. -/
def deliver (output : Option Path) (verbose : Bool)
    (conversion : Conversion) : m Outcome := do
  let said := if verbose then conversionText conversion else []
  match output with
  | none => return { output := conversion.output, errors := said }
  | some path =>
      match ← FileSystem.writeFile path (encode conversion.output) with
      | .error cause =>
          return failed said (("Failed to write " : Text) ++ path.text)
            [cause.message]
      | .ok _ =>
          let written :=
            if verbose then line (("Wrote " : Text) ++ path.text) else []
          return { errors := said ++ written }

def run : Command → ExceptT Fault m Outcome
  | .convert input output policy verbose => do
      match ← convertFile policy input with
      | .error failure => return failed [] failure.message failure.causes
      | .ok conversion =>
          (deliver output verbose conversion : m Outcome)
  | .convertAll folder extension policy verbose => do
      match ← convertFolder policy folder extension with
      | .error failure => return failed [] failure.message failure.causes
      | .ok reports => return folderOutcome verbose reports

def runArguments (arguments : List Text) : ExceptT Fault m Outcome :=
  match ofArguments arguments with
  | .ok command => command.run
  | .error .help => return { output := usage }
  | .error .usage => return { exitCode := 2, errors := usage }

end

end Snowform.Command
