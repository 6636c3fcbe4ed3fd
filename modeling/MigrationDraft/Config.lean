import MigrationDraft.Files
import MigrationDraft.Fragments
import MigrationDraft.Toml.Reader
import MigrationDraft.Stubs
import MigrationDraft.Toml.Document

set_option autoImplicit false

/-!
# Configuration

Where the user's stubs are and where migrations belong, from a TOML document:

    [stubs]
    dir = "stubs"

    [migrations]
    path = "database/migrations"

Each entry may be missing and others are ignored. One source decides the configuration: a file
that the command names, else the project's own file, else the user's. A source that is there is
the only one that is read.

All that can go wrong between a command and its output has a cause with a wording of its own.
-/

namespace MigrationDraft

/-! ## Failures -/

/-- Why a configuration text is not a configuration. -/
inductive ConfigError where
  /-- The text is no TOML document. -/
  | malformed (description : String)
  /-- The document holds a value of another type than the key asks for. -/
  | wrongType (key wanted : String)
  deriving DecidableEq, Repr

def ConfigError.message : ConfigError → String
  | .malformed description => description
  | .wrongType key wanted => key ++ " is not " ++ wanted

/-- Why there is no output. -/
inductive Failure where
  /-- The name of the migration does not say what it is for. -/
  | unknownIntent (cause : UnknownIntent)
  /-- The configuration cannot be understood. -/
  | config (cause : ConfigError)
  /-- A file cannot be read. -/
  | read (cause : ReadError)
  deriving DecidableEq, Repr

namespace Failure

def message : Failure → String
  | .unknownIntent cause => cause.message
  | .config cause => "Configuration error: " ++ cause.message
  | .read cause => "IO error: " ++ cause.message

/-- The description of a failure with that of its own cause after it, if it has one. -/
def trace : Failure → String
  | .read cause => message (.read cause) ++ ": " ++ cause.message
  | f => f.message

end Failure

/-! ## Settings -/

structure Config where
  stubsDirectory : Option String
  migrationsPath : String
  deriving DecidableEq, Repr

namespace Config

/-- The directory that migrations belong to unless the user says otherwise. -/
def defaultMigrationsPath : String := "database/migrations"

def standard : Config := ⟨none, defaultMigrationsPath⟩

/-- The settings say no more than the standard ones. Paths count by their components. -/
def isStandard (c : Config) : Bool :=
  c.stubsDirectory.isNone
    && Path.components c.migrationsPath == Path.components defaultMigrationsPath

/-! ## Settings from a document -/

/-- The only entry of a section. A section is a table that may hold the entry under its key, or
an array that holds it in first place. A date counts as a table of other entries. -/
def entry? (heading key : String) : Toml.Value → Except ConfigError (Option Toml.Value)
  | .table entries => .ok (entries.lookup key)
  | .array items => .ok items.head?
  | .date _ => .ok none
  | _ => .error (.wrongType heading "a table")

/-- The path that an entry of a section gives, none where the section or the entry is missing. -/
def path? (document : List (String × Toml.Value)) (heading key : String) :
    Except ConfigError (Option String) :=
  match document.lookup heading with
  | none => .ok none
  | some v =>
      match entry? heading key v with
      | .error e => .error e
      | .ok none => .ok none
      | .ok (some (.string path)) => .ok (some path)
      | .ok (some _) => .error (.wrongType (heading ++ "." ++ key) "a string")

def ofDocument (document : List (String × Toml.Value)) : Except ConfigError Config := do
  let stubsDirectory ← path? document "stubs" "dir"
  let migrationsPath ← path? document "migrations" "path"
  .ok ⟨stubsDirectory, migrationsPath.getD defaultMigrationsPath⟩

def ofToml (text : String) : Except ConfigError Config :=
  match Toml.read text with
  | .ok document => ofDocument document
  | .error e => .error (.malformed (e.message text))

/-! ## The source -/

def projectFile : String := "schemagen.toml"

def userFile (directory : String) : String :=
  Path.join (Path.join directory "schemagen") "config.toml"

def ofFile (files : Files) (path : String) : Except Failure Config :=
  match files.read path with
  | .error e => .error (.read e)
  | .ok text =>
      match ofToml text with
      | .ok c => .ok c
      | .error e => .error (.config e)

/-- The files that may decide the settings where the command names none, in order. -/
def candidates (userDirectory : Option String) : List String :=
  projectFile :: (userDirectory.map userFile).toList

/-- The file that decides the settings: the given one, whether it is there or not, else the
first candidate that is there. -/
def source? (files : Files) (userDirectory explicit : Option String) : Option String :=
  match explicit with
  | some path => some path
  | none => (candidates userDirectory).find? files.isFile

def discover (files : Files) (userDirectory explicit : Option String) : Except Failure Config :=
  match source? files userDirectory explicit with
  | some path => ofFile files path
  | none => .ok standard

def withStubs (c : Config) (directory : Option String) : Config :=
  { c with stubsDirectory := directory.or c.stubsDirectory }

def stubs (c : Config) (files : Files) : Except ReadError Stubs :=
  match c.stubsDirectory with
  | some directory => Stubs.load files directory
  | none => .ok Stubs.builtin

end Config

end MigrationDraft
