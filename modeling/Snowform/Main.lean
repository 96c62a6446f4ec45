import Snowform.Command.Run

/-!
# The program

The outer layer gives the commands the files of the operating system, prints
what they say and ends with their exit code.
-/

namespace Snowform.Main

open Text

/-- A refusal of the operating system. -/
def osError (reason : IO.Error) : OsError :=
  match reason with
  | .noFileOrDirectory _ _ _ => .notFound
  | .noSuchThing _ _ _ => .notFound
  | .inappropriateType _ 20 _ => .notFolder
  | .inappropriateType _ 21 _ => .isFolder
  | .invalidArgument _ 36 _ => .nameTooLong
  | other => .other (toString other).toList

/-- Run an action and keep the reason why it is refused. -/
def attempt {α : Type} (action : IO α) : IO (Except OsError α) := do
  match ← action.toBaseIO with
  | .ok value => return .ok value
  | .error reason => return .error (osError reason)

/-- A path as the operating system takes it. -/
def entry (path : Path) : IO.FS.DirEntry :=
  ⟨⟨String.ofList path.text⟩, ""⟩

/-- The paths of the files at or below a path. -/
partial def filesBelow (path : Path) : IO (List Path) := do
  let metadata ← (entry path).root.metadata
  match metadata.type with
  | .dir =>
      let entries ← (entry path).root.readDir
      return (← entries.toList.mapM fun found =>
        filesBelow (path.join found.fileName.toList)).flatten
  | .file => return [path]
  | _ => return []

instance : FileSystem IO where
  readFile path := attempt do
    return (← IO.FS.readBinFile (entry path).root).toList
  writeFile path content :=
    attempt (IO.FS.writeBinFile (entry path).root ⟨content.toArray⟩)
  listFiles path := attempt (filesBelow path)

end Snowform.Main

open Snowform in
/-- Run the command that the arguments ask for. -/
def main (arguments : List String) : IO UInt32 := do
  let outcome : Except Fault Command.Outcome ←
    (Command.runArguments (arguments.map String.toList) : ExceptT Fault IO _)
  match outcome with
  | .ok outcome =>
      IO.print (String.ofList outcome.output)
      IO.eprint (String.ofList outcome.errors)
      return UInt32.ofNat outcome.exitCode
  | .error .splitCharacter =>
      IO.eprintln "Error: a statement would have been cut inside a character"
      return 101
