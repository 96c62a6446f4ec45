import Snowform.Files.Path
import Snowform.Terraform.Naming

/-!
# Command line arguments

There is a command for a file and one for a folder.  Options have a long name
and may have a letter; a value may be attached to its option or be the next
argument.  Letters without values may be joined.  Every option but the names
of databases may be given once, and nothing may be left over.
-/

namespace Snowform

open Text Terraform

inductive Command where
  /-- Convert a file, to another file if there is an output. -/
  | convert (input : Path) (output : Option Path) (policy : Policy)
      (verbose : Bool)
  /-- Convert the files of a folder with an extension. -/
  | convertAll (folder : Path) (extension : Text) (policy : Policy)
      (verbose : Bool)
  deriving DecidableEq

namespace Command

inductive OptionName where
  | input
  | output
  | folder
  | extension
  | noSchemaPrefix
  | databaseToken
  | verbose
  deriving DecidableEq

namespace OptionName

def long : OptionName → Text
  | .input => "input"
  | .output => "output"
  | .folder => "dir"
  | .extension => "extension"
  | .noSchemaPrefix => "no-schema-prefix"
  | .databaseToken => "database-token"
  | .verbose => "verbose"

def letter? : OptionName → Option Char
  | .input => some 'i'
  | .output => some 'o'
  | .folder => some 'd'
  | .verbose => some 'v'
  | _ => none

def hasValue : OptionName → Bool
  | .noSchemaPrefix => false
  | .verbose => false
  | _ => true

/-- Whether the value of an option is a path, which is never empty. -/
def isPath : OptionName → Bool
  | .input => true
  | .output => true
  | .folder => true
  | _ => false

/-- Whether an option may be given more than once. -/
def isRepeatable : OptionName → Bool
  | .databaseToken => true
  | _ => false

end OptionName

inductive CommandName where
  | convert
  | convertAll
  deriving DecidableEq

namespace CommandName

def word : CommandName → Text
  | .convert => "convert"
  | .convertAll => "convert-dir"

def options : CommandName → List OptionName
  | .convert =>
      [.input, .output, .noSchemaPrefix, .databaseToken, .verbose]
  | .convertAll =>
      [.folder, .extension, .noSchemaPrefix, .databaseToken, .verbose]

end CommandName

/-- Why arguments are not followed. -/
inductive Refusal where
  /-- The arguments fit no command. -/
  | usage
  /-- The arguments ask for help. -/
  | help
  deriving DecidableEq

/-- An option that was given, with its value. -/
structure Setting where
  name : OptionName
  value : Text := []
  deriving DecidableEq

/-! ## Reading options -/

/-- The setting of an option, whose value may not be an empty path. -/
def setting (name : OptionName) (value : Text) : Except Refusal Setting :=
  if name.isPath && value.isEmpty then .error .usage else .ok ⟨name, value⟩

/-- Whether an argument can be the value of the option before it. -/
def isValue (argument : Text) : Bool :=
  argument.head? != some '-' || argument == ['-']

/--
Read an option, given the value attached to it and the next argument.  The
answer says whether the next argument was its value.
-/
def readSetting (name : OptionName) (attached next : Option Text) :
    Except Refusal (Setting × Bool) :=
  if name.hasValue then
    match attached, next with
    | some value, _ => (setting name value).map fun found => (found, false)
    | none, some value =>
        if isValue value then
          (setting name value).map fun found => (found, true)
        else
          .error .usage
    | none, none => .error .usage
  else
    match attached with
    | some _ => .error .usage
    | none => .ok (⟨name, []⟩, false)

/-- Add a setting to those given before it. -/
def addSetting (given : List Setting) (found : Setting) :
    Except Refusal (List Setting) :=
  if !found.name.isRepeatable && given.any (·.name == found.name) then
    .error .usage
  else
    .ok (given ++ [found])

/-- Read joined letters behind the settings given before them. -/
def readLetters (command : CommandName) (next : Option Text) :
    List Setting → Text → Except Refusal (List Setting × Bool)
  | given, [] => .ok (given, false)
  | given, letter :: rest =>
      match command.options.find? (·.letter? == some letter) with
      | none => .error (if letter = 'h' then .help else .usage)
      | some name =>
          if name.hasValue then do
            let attached := if rest.isEmpty then none else some rest
            let value := attached.map fun value =>
              (dropStart? "=" value).getD value
            let (found, usesNext) ← readSetting name value next
            return (← addSetting given found, usesNext)
          else do
            readLetters command next (← addSetting given ⟨name, []⟩) rest

/--
Read an argument that gives options by their long name or letters, behind the
settings given before it.
-/
def readArgument (command : CommandName) (given : List Setting)
    (argument : Text) (next : Option Text) :
    Except Refusal (List Setting × Bool) :=
  match argument with
  | '-' :: '-' :: long =>
      let name := long.takeWhile (· != '=')
      let attached :=
        if long.contains '=' then some (long.drop (name.length + 1)) else none
      match command.options.find? (·.long == name) with
      | none =>
          .error (if name = "help" ∧ attached = none then .help else .usage)
      | some name => do
          let (found, usesNext) ← readSetting name attached next
          return (← addSetting given found, usesNext)
  | '-' :: letter :: letters =>
      readLetters command next given (letter :: letters)
  | _ => .error .usage

/-- Read arguments, the first of which may be a value that is used already. -/
def readArguments (command : CommandName) :
    List Setting → Bool → List Text → Except Refusal (List Setting)
  | given, _, [] => .ok given
  | given, used, argument :: others =>
      if used then
        readArguments command given false others
      else if argument = "--" then
        if others.isEmpty then .ok given else .error .usage
      else do
        let (known, usesNext) ←
          readArgument command given argument others.head?
        readArguments command known usesNext others

/-! ## Reading commands -/

/-- The values that were given for an option. -/
def valuesOf (settings : List Setting) (name : OptionName) : List Text :=
  (settings.filter (·.name == name)).map (·.value)

/-- The policy that options ask for. -/
def policyOf (settings : List Setting) : Policy :=
  { schemaPrefix := (valuesOf settings .noSchemaPrefix).isEmpty
    databaseTokens := valuesOf settings .databaseToken }

/-- The extension of scripts, unless another one is given. -/
def scriptExtension : Text := "sql"

/-- The command that options ask for. -/
def ofSettings (command : CommandName) (settings : List Setting) :
    Except Refusal Command :=
  let verbose := !(valuesOf settings .verbose).isEmpty
  match command with
  | .convert =>
      match valuesOf settings .input with
      | input :: _ =>
          .ok (.convert ⟨input⟩
            ((valuesOf settings .output).head?.map Path.mk)
            (policyOf settings) verbose)
      | [] => .error .usage
  | .convertAll =>
      match valuesOf settings .folder with
      | folder :: _ =>
          .ok (.convertAll ⟨folder⟩
            ((valuesOf settings .extension).head?.getD scriptExtension)
            (policyOf settings) verbose)
      | [] => .error .usage

def CommandName.ofWord? (word : Text) : Option CommandName :=
  [CommandName.convert, .convertAll].find? (·.word == word)

/-- The argument that asks about the program or the command behind it. -/
def helpWord : Text := "help"

/--
Whether arguments ask what the program is instead of giving a command: by an
option in front, or by a word behind which one command may be named.
-/
def isQuestion : List Text → Bool
  | [] => false
  | argument :: others =>
      if argument = helpWord then
        match others with
        | [] => true
        | [word] => word == helpWord || (CommandName.ofWord? word).isSome
        | _ => false
      else
        argument = "--help" || argument = "--version" ||
          ("-h" : Text).isPrefixOf argument || ("-V" : Text).isPrefixOf argument

def ofArguments (arguments : List Text) : Except Refusal Command :=
  match arguments with
  | [] => .error .usage
  | argument :: others =>
      match CommandName.ofWord? argument with
      | some command => do
          ofSettings command (← readArguments command [] false others)
      | none => .error (if isQuestion arguments then .help else .usage)

end Command

end Snowform
