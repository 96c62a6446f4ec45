import Snowform.Files.Failure
import Snowform.Text.Encoding

/-!
# File systems

A conversion reads files, writes files and lists the files below a folder.
Any monad that can do this is a file system.  A tree is one as a value: it
holds all folders and files, and paths that do not start at its root start at
its working folder.
-/

namespace Snowform

open Text

/-- A monad in which files can be read, written and listed. -/
class FileSystem (m : Type → Type) where
  /-- The content of a file. -/
  readFile : Path → m (Except OsError Bytes)
  /-- Make the content of a file what is given. -/
  writeFile : Path → Bytes → m (Except OsError Unit)
  /-- The paths of all files at or below a path, in any order. -/
  listFiles : Path → m (Except OsError (List Path))

/-- A place below the root, from the outermost folder on. -/
abbrev Location := List Text

/-- The folders and files below the root. -/
structure Tree where
  /-- Where paths start that do not start at the root. -/
  working : Location := []
  folders : List Location := []
  files : List (Location × Bytes) := []

namespace Tree

def isFolder (tree : Tree) (location : Location) : Bool :=
  location.isEmpty || tree.folders.contains location

/-- The content of the file at a location. -/
def file? (tree : Tree) (location : Location) : Option Bytes :=
  tree.files.lookup location

/-- Whether there is something at a location. -/
def holds (tree : Tree) (location : Location) : Bool :=
  tree.isFolder location || (tree.file? location).isSome

/-- Make the content of the file at a location what is given. -/
def put (tree : Tree) (location : Location) (content : Bytes) : Tree :=
  if (tree.file? location).isSome then
    { tree with
      files := tree.files.map fun entry =>
        if entry.1 = location then (location, content) else entry }
  else
    { tree with files := tree.files ++ [(location, content)] }

/-- Add a folder and the folders around it. -/
def addFolder (tree : Tree) (location : Location) : Tree :=
  { tree with
    folders := tree.folders ++ (List.range location.length).map fun index =>
      location.take (index + 1) }

/-- Add a file and the folders around it. -/
def addFile (tree : Tree) (location : Location) (content : Bytes) : Tree :=
  (tree.addFolder location.dropLast).put location content

def step (tree : Tree) (location : Location) (component : Text) :
    Except OsError Location :=
  if !tree.isFolder location then
    .error .notFolder
  else if component = "." then
    .ok location
  else if component = ".." then
    .ok location.dropLast
  else if Path.isTooLongComponent component then
    .error .nameTooLong
  else if tree.holds (location ++ [component]) then
    .ok (location ++ [component])
  else
    .error .notFound

/-- The location that components lead to from the start of a path. -/
def follow (tree : Tree) (path : Path) (components : List Text) :
    Except OsError Location :=
  if path.text.isEmpty then
    .error .notFound
  else if path.isTooLong then
    .error .nameTooLong
  else
    components.foldlM tree.step (if path.isAbsolute then [] else tree.working)

def locate (tree : Tree) (path : Path) : Except OsError Location := do
  let location ← tree.follow path path.components
  if path.endsInSlash && !tree.isFolder location then
    throw .notFolder
  return location

def read (tree : Tree) (path : Path) : Except OsError Bytes := do
  let location ← tree.locate path
  match tree.file? location with
  | some content => return content
  | none => throw .isFolder

def write (tree : Tree) (path : Path) (content : Bytes) :
    Except OsError Tree := do
  let folder ← tree.follow path path.components.dropLast
  if !tree.isFolder folder then
    throw .notFolder
  let name := path.fileName
  let location := folder ++ [name]
  if path.endsInSlash || name = "." || name = ".." ||
      tree.isFolder location then
    throw .isFolder
  if Path.isTooLongComponent name then
    throw .nameTooLong
  return tree.put location content

/-- The paths of the files at or below a path. -/
def list (tree : Tree) (path : Path) : Except OsError (List Path) := do
  let location ← tree.locate path
  return tree.files.filterMap fun entry =>
    if location.isPrefixOf entry.1 then
      some ((entry.1.drop location.length).foldl Path.join path)
    else
      none

/-- A tree that is kept as a state is a file system. -/
instance : FileSystem (StateM Tree) where
  readFile path := return (← get).read path
  writeFile path content := do
    match (← get).write path content with
    | .ok changed =>
        set changed
        return .ok ()
    | .error reason => return .error reason
  listFiles path := return (← get).list path

end Tree

end Snowform
