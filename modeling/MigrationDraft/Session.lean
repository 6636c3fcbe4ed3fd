import MigrationDraft.Text
import MigrationDraft.Column
import MigrationDraft.Intent
import MigrationDraft.CommandLine
import MigrationDraft.Config
import MigrationDraft.Migration

set_option autoImplicit false

/-!
# A run of the program

A run is a function of the command line and its surroundings: the files, the user's directory
for configurations, the time, and whether colours are wanted. It writes line by line and answers
with an exit code and what it has written, also where it fails. The log for debugging is left out:
it goes to the error output between these lines, each entry with the time it was made at, and
neither the standard output nor the exit code depends on it.

Some text is styled for a terminal that shows colours. A style is set in front of a text and reset
behind it. Where the text itself holds a reset, the style is set again after it, so that it covers
the whole text.
-/

namespace MigrationDraft.Console

/-! ## Styled text -/

/-- A style, as the numbers of its terminal attributes. -/
structure Style where
  attributes : List Nat
  deriving DecidableEq, Repr

def boldGreen : Style := ⟨[1, 32]⟩
def boldRed : Style := ⟨[1, 31]⟩
def red : Style := ⟨[31]⟩
def cyan : Style := ⟨[36]⟩
def white : Style := ⟨[37]⟩
def dimmed : Style := ⟨[2]⟩

/-- The sequence that sets a style; `reset` ends all styles. -/
def Style.sequence (s : Style) : String :=
  "\x1b[" ++ String.intercalate ";" (s.attributes.map Nat.repr) ++ "m"

def reset : String := "\x1b[0m"

/-- The text in a style, or as it is where colours are not wanted. -/
def paint (colored : Bool) (s : Style) (text : String) : String :=
  if colored then
    let inner := Text.replace reset.toList (reset ++ s.sequence).toList text.toList
    s.sequence ++ String.ofList inner ++ reset
  else text

end MigrationDraft.Console

namespace MigrationDraft

/-- What a run depends on besides its command line. -/
structure Surroundings where
  files : Files
  userDirectory : Option String
  stubsFallback : Option String
  now : Timestamp
  colored : Bool

structure Outcome where
  exitCode : Nat
  stdout : String
  stderr : String
  deriving DecidableEq, Repr

namespace Session

def versionLine : String := "schemagen 0.3.0"

/-- How the program is used. The descriptions and the examples are the program's own. The columns
in which it sets them out and the help of each command apart are left out. -/
def usage : String :=
  "Generate migrations from a name and a column shorthand\n\n"
    ++ "Usage: schemagen [OPTIONS] <COMMAND>\n\n"
    ++ "Commands:\n"
    ++ "  migration <NAME>                   Generate a migration from its name\n"
    ++ "  pivot <TABLE_ONE> <TABLE_TWO>      Generate a many-to-many pivot table migration\n"
    ++ "  explain <NAME>                     Show how a name and schema are parsed\n\n"
    ++ "Options:\n"
    ++ "  -s, --schema <SCHEMA>              Column shorthand (all commands)\n"
    ++ "      --fragments                    Print only the up/down bodies (migration)\n"
    ++ "  -f, --format <text|json>           Output format (migration, explain)\n"
    ++ "  -v, --verbose                      Verbose output (debug logging to stderr)\n"
    ++ "      --stubs <DIR>                  Directory with stub overrides\n"
    ++ "      --config <FILE>                Config file (defaults to ./schemagen.toml)\n"
    ++ "  -h, --help                         Print help\n"
    ++ "  -V, --version                      Print version\n\n"
    ++ "EXAMPLES:\n"
    ++ "    schemagen migration create_posts_table -s 'title:string, user_id:integer:foreign'\n"
    ++ "    schemagen migration remove_avatar_from_users_table -s 'avatar:string:nullable'"
    ++ " --fragments\n"
    ++ "    schemagen pivot posts tags -s 'weight:integer:default(0)'\n"
    ++ "    schemagen explain add_votes_to_posts_table -s 'votes:integer' -f json\n"

/-- Why a run fails once its command line is understood. -/
inductive RunError where
  /-- There are no settings. -/
  | config (cause : Failure)
  /-- The stubs cannot be read. -/
  | stubs (cause : ReadError)
  /-- The name of the migration does not say what it is for. -/
  | intent (name : String) (cause : UnknownIntent)
  deriving DecidableEq, Repr

def RunError.message : RunError → String
  | .config cause => "failed to load config: " ++ cause.trace
  | .stubs cause => "failed to load stubs: " ++ (Failure.read cause).trace
  | .intent name cause =>
      "migration name '" ++ name ++ "' resolved to action '" ++ cause.verb ++ "': "
        ++ cause.message

/-- The settings and the stubs for a request. A directory of stubs in the request wins over the
configured one. -/
def settings (s : Surroundings) (r : Request) : Except RunError (Config × Stubs) := do
  let config ← (Config.discover s.files s.userDirectory r.configFile).mapError RunError.config
  let config := config.withStubs r.stubsDirectory
  let stubs ← (config.stubs s.files).mapError RunError.stubs
  .ok (config, stubs)

/-! ## Writing

A run is made of parts. Each part writes line by line to the two outputs and may fail. -/

structure Written where
  stdout : String
  stderr : String
  deriving DecidableEq, Repr

/-- A part of a run. A failure takes back nothing of what was written before it. -/
abbrev Part (α : Type) : Type := ExceptT RunError (StateM Written) α

def say (line : String) : Part Unit :=
  modify fun w => { w with stdout := w.stdout ++ (line ++ "\n") }

def note (line : String) : Part Unit :=
  modify fun w => { w with stderr := w.stderr ++ (line ++ "\n") }

def heading (colored : Bool) (text : String) : String :=
  Console.paint colored Console.boldGreen text

def pathLine (colored : Bool) (path : String) : String :=
  heading colored "Migration:" ++ " " ++ Console.paint colored Console.cyan path

/-! ## Drafts of migrations -/

/-- A generated migration with all that is known of it. -/
structure Draft where
  path : String
  className : String
  intent : Intent
  fragments : Fragments
  content : String

def draftOf (s : Surroundings) (config : Config) (stubs : Stubs) (name : String)
    (fragments : Fragments) : Draft :=
  let intent := Intent.ofName name
  let migration : Migration := ⟨name, s.now⟩
  { path := Path.join config.migrationsPath migration.fileName
    className := migration.className
    intent
    fragments
    content := migration.render stubs fragments intent.table }

def draft (s : Surroundings) (config : Config) (stubs : Stubs) (name shorthand : String) :
    Except UnknownIntent Draft :=
  (Fragments.build stubs (Schema.ofShorthand shorthand) (Intent.ofName name)).map
    (draftOf s config stubs name)

def fragmentsRecord (f : Fragments) : Json :=
  .object [("up", .string f.up), ("down", .string f.down)]

/-- A draft as a record, its bodies inside the content. -/
def draftRecord (d : Draft) : Json :=
  .object
    [("path", .string d.path), ("class", .string d.className), ("table", .string d.intent.table),
      ("action", d.intent.action.toJson), ("content", .string d.content)]

def writeFragments (colored : Bool) (f : Fragments) : Part Unit := do
  say (heading colored "up:")
  say f.up
  say ""
  say (heading colored "down:")
  say f.down

/-- A draft in one of its presentations. -/
def writeDraft (colored bodiesOnly : Bool) (format : Format) (d : Draft) : Part Unit :=
  match format, bodiesOnly with
  | .json, true => say (fragmentsRecord d.fragments).pretty
  | .json, false => say (draftRecord d).sortKeys.pretty
  | .text, true => writeFragments colored d.fragments
  | .text, false => do
      note (pathLine colored d.path)
      say d.content

def writeMigration (s : Surroundings) (config : Config) (stubs : Stubs) (name shorthand : String)
    (bodiesOnly : Bool) (format : Format) : Part Unit := do
  let d ← (draft s config stubs name shorthand).mapError (RunError.intent name)
  writeDraft s.colored bodiesOnly format d

/-! ## Pivot tables -/

def writePivot (s : Surroundings) (config : Config) (stubs : Stubs) (one two : String)
    (shorthand : Option String) : Part Unit := do
  let pivot := Pivot.ofTables one two s.now
  note (pathLine s.colored (Path.join config.migrationsPath pivot.fileName))
  say (pivot.render stubs (shorthand.map Schema.ofShorthand))

/-! ## Readings -/

def readingRecord (intent : Intent) (columns : Schema) : Json :=
  .object [("intent", intent.toJson), ("schema", Schema.toJson columns)]

def actionText (colored : Bool) (a : Action) : String :=
  if a.isOther then Console.paint colored Console.red (a.text ++ " (unrecognized)")
  else Console.paint colored Console.cyan a.text

/-- The list of columns, nothing where there are none. -/
def writeColumns (colored : Bool) : Schema → Part Unit
  | [] => pure ()
  | columns => do
      say ("  " ++ Console.paint colored Console.dimmed "Columns:")
      columns.forM fun c => say ("    • " ++ Console.paint colored Console.white c.shorthand)

/-- The reading of a name and a shorthand for a reader. -/
def writeReading (colored : Bool) (intent : Intent) (columns : Schema) : Part Unit := do
  say (heading colored "Parsed Structure:")
  say ("  " ++ Console.paint colored Console.dimmed "Action:" ++ " "
    ++ actionText colored intent.action)
  say ("  " ++ Console.paint colored Console.dimmed "Table:" ++ " "
    ++ Console.paint colored Console.white intent.table)
  writeColumns colored columns

/-- The reading of a name and a shorthand in one of its presentations. -/
def explain (colored : Bool) (format : Format) (name shorthand : String) : Part Unit :=
  let intent := Intent.ofName name
  let columns := Schema.ofShorthand shorthand
  match format with
  | .json => say (readingRecord intent columns).sortKeys.pretty
  | .text => writeReading colored intent columns

/-! ## Runs -/

/-- A command, once there are settings and stubs for it. -/
def perform (s : Surroundings) (config : Config) (stubs : Stubs) : Command → Part Unit
  | .migration name shorthand bodiesOnly format =>
      writeMigration s config stubs name shorthand bodiesOnly format
  | .pivot one two shorthand => writePivot s config stubs one two shorthand
  | .explain name shorthand format => explain s.colored format name shorthand

def errorLine (colored : Bool) (e : RunError) : String :=
  Console.paint colored Console.boldRed "Error:" ++ " " ++ e.message

/-- A request from its settings on. -/
def execute (s : Surroundings) (r : Request) : Part Unit := do
  let (config, stubs) ← settings s r
  perform s config stubs r.command

/-- The outcome of a run that ended in this way. What was written before a failure stays, and the
failure is told on the error output. -/
def outcome (colored : Bool) : Except RunError Unit × Written → Outcome
  | (.ok (), w) => ⟨0, w.stdout, w.stderr⟩
  | (.error e, w) => ⟨1, w.stdout, w.stderr ++ (errorLine colored e ++ "\n")⟩

def run (s : Surroundings) (r : Request) : Outcome := outcome s.colored (execute s r ⟨"", ""⟩)

def respond (s : Surroundings) (arguments : List String) : Outcome :=
  match CommandLine.parse s.stubsFallback arguments with
  | .error e => ⟨2, "", "error: " ++ e.message ++ "\n"⟩
  | .ok .version => ⟨0, versionLine ++ "\n", ""⟩
  | .ok .help => ⟨0, usage, ""⟩
  | .ok (.run r) => run s r

end Session

end MigrationDraft
