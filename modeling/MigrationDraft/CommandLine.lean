set_option autoImplicit false

/-!
# The command line

A command line asks for one of three commands, with options before and after the command's
name. Options have a long form `--name value` or `--name=value` and some a short form `-n value`,
`-n=value` or `-nvalue`; short options without a value may share a dash. Three options belong to
every command and may stand on either side of its name. What stands after `--` is no option.

An option may be given once on each side. A value never starts with a dash unless it is attached
to its option, and the paths of the options have to be non-empty.
-/

namespace MigrationDraft

/-- How a command presents its result. -/
inductive Format where
  | text
  | json
  deriving DecidableEq, Repr

inductive Command where
  /-- A migration is drafted from its name, as a whole file or as its two bodies only. -/
  | migration (name shorthand : String) (bodiesOnly : Bool) (format : Format)
  /-- A pivot table is drafted for two tables, with columns of its own if there are any. -/
  | pivot (one two : String) (shorthand : Option String)
  /-- The reading of a name and a shorthand is shown. -/
  | explain (name shorthand : String) (format : Format)
  deriving DecidableEq, Repr

/-- A command with the settings that all commands share. -/
structure Request where
  /-- The log for debugging is wanted. Nothing else depends on it. -/
  verbose : Bool
  stubsDirectory : Option String
  configFile : Option String
  command : Command
  deriving DecidableEq, Repr

namespace CommandLine

/-! ## Options and their places -/

inductive Opt where
  | verbose
  | stubs
  | config
  | schema
  | fragments
  | format
  | help
  | version
  deriving DecidableEq, Repr

def Opt.long : Opt → String
  | .verbose => "verbose"
  | .stubs => "stubs"
  | .config => "config"
  | .schema => "schema"
  | .fragments => "fragments"
  | .format => "format"
  | .help => "help"
  | .version => "version"

def Opt.short? : Opt → Option Char
  | .verbose => some 'v'
  | .schema => some 's'
  | .format => some 'f'
  | .help => some 'h'
  | .version => some 'V'
  | _ => none

def Opt.takesValue : Opt → Bool
  | .stubs | .config | .schema | .format => true
  | _ => false

def Opt.accepts : Opt → String → Bool
  | .stubs, value | .config, value => value ≠ ""
  | .format, value => value = "text" || value = "json"
  | _, _ => true

/-- A place for options: before the name of a command, or after it. -/
inductive Place where
  | front
  | migration
  | pivot
  | explain
  deriving DecidableEq, Repr

def Place.options : Place → List Opt
  | .front => [.verbose, .stubs, .config, .help, .version]
  | .migration => [.schema, .fragments, .format, .verbose, .stubs, .config, .help]
  | .pivot => [.schema, .verbose, .stubs, .config, .help]
  | .explain => [.schema, .format, .verbose, .stubs, .config, .help]

/-- The number of arguments that are no options. -/
def Place.arity : Place → Nat
  | .front => 0
  | .pivot => 2
  | _ => 1

def Place.ofCommand? (name : String) : Option Place :=
  if name = "migration" then some .migration
  else if name = "pivot" then some .pivot
  else if name = "explain" then some .explain
  else none

def Place.long? (p : Place) (name : String) : Option Opt := p.options.find? fun o => o.long = name

def Place.short? (p : Place) (c : Char) : Option Opt :=
  p.options.find? fun o => o.short? = some c

/-! ## Errors -/

/-- Why a command line cannot be understood. -/
inductive UsageError where
  /-- The place has no option of this name. -/
  | unknownOption (name : String)
  /-- There is no command of this name. -/
  | unknownCommand (name : String)
  /-- The place has no room for another argument. -/
  | unexpectedArgument (text : String)
  /-- A value is attached to an option that takes none. -/
  | unexpectedValue (option : Opt)
  /-- No value follows an option that takes one. -/
  | missingValue (option : Opt)
  /-- The option may not have this value. -/
  | invalidValue (option : Opt) (value : String)
  /-- The option is given twice on one side. -/
  | repeated (option : Opt)
  /-- The command needs more arguments. -/
  | missingArgument
  /-- There is no command. -/
  | missingCommand
  deriving DecidableEq, Repr

/-- The description of the error in one line. The tips and the summary of the usage that come
with it are left out. -/
def UsageError.message : UsageError → String
  | .unknownOption name => "unexpected argument '" ++ name ++ "' found"
  | .unknownCommand name => "unrecognized subcommand '" ++ name ++ "'"
  | .unexpectedArgument text => "unexpected argument '" ++ text ++ "' found"
  | .unexpectedValue o => "the option --" ++ o.long ++ " takes no value"
  | .missingValue o => "a value is required for --" ++ o.long
  | .invalidValue o value => "invalid value '" ++ value ++ "' for --" ++ o.long
  | .repeated o => "the option --" ++ o.long ++ " cannot be used multiple times"
  | .missingArgument => "the following required arguments were not provided"
  | .missingCommand => "a subcommand is required"

/-! ## Reading one place -/

/-- The options of a place with their values, and its other arguments. -/
structure Given where
  options : List (Opt × String)
  arguments : List String
  deriving DecidableEq, Repr

namespace Given

def empty : Given := ⟨[], []⟩

def value? (g : Given) (o : Opt) : Option String := g.options.lookup o

def has (g : Given) (o : Opt) : Bool := (g.value? o).isSome

/-- With an option added. It must be new and its value one that it may have. -/
def add (g : Given) (o : Opt) (value : String) : Except UsageError Given :=
  if g.has o then .error (.repeated o)
  else if o.accepts value then .ok { g with options := g.options ++ [(o, value)] }
  else .error (.invalidValue o value)

/-- With arguments added, as far as the place has room for them. -/
def push (g : Given) (p : Place) : List String → Except UsageError Given
  | [] => .ok g
  | a :: as =>
      if g.arguments.length < p.arity then
        push { g with arguments := g.arguments ++ [a] } p as
      else .error (.unexpectedArgument a)

end Given

inductive Shape where
  /-- Two dashes alone. -/
  | separator
  /-- Two dashes, a name, and perhaps an attached value. -/
  | long (name : String) (value : Option String)
  /-- A dash and letters. -/
  | short (letters : List Char)
  /-- Anything else. -/
  | plain

/-- The text before the first equals sign, and what follows it if there is one. -/
def splitAtEquals (s : List Char) : String × Option String :=
  match s.dropWhile (· ≠ '=') with
  | [] => (String.ofList s, none)
  | _ :: value => (String.ofList (s.takeWhile (· ≠ '=')), some (String.ofList value))

/-- The shape of an argument. A dash alone is nothing special. -/
def shape (argument : String) : Shape :=
  match argument.toList with
  | ['-', '-'] => .separator
  | '-' :: '-' :: s => let (name, value) := splitAtEquals s; .long name value
  | '-' :: c :: s => .short (c :: s)
  | _ => .plain

/-- How the reading of a place, or of letters behind one dash, goes on or ends. -/
inductive Ending where
  /-- Nothing is open. -/
  | done
  /-- The option waits for its value. -/
  | pending (option : Opt)
  /-- The name of a command came up, with arguments after it. -/
  | command (place : Place) (rest : List String)
  /-- The version is asked for. -/
  | version
  /-- Help is asked for. -/
  | help

def flag (g : Given) : Opt → Except UsageError (Given × Ending)
  | .version => .ok (g, .version)
  | .help => .ok (g, .help)
  | o => (g.add o "").map fun g => (g, .done)

/-- The options behind one dash. The first that takes a value takes what is left, without an
equals sign at its front; if nothing is left its value is still to come. -/
def letters (p : Place) : Given → List Char → Except UsageError (Given × Ending)
  | g, [] => .ok (g, .done)
  | g, c :: cs =>
      match p.short? c with
      | none => .error (.unknownOption (String.ofList ['-', c]))
      | some o =>
          if o.takesValue then
            match cs with
            | [] => .ok (g, .pending o)
            | '=' :: value => (g.add o (String.ofList value)).map fun g => (g, .done)
            | value => (g.add o (String.ofList value)).map fun g => (g, .done)
          else
            match flag g o with
            | .ok (g, .done) => letters p g cs
            | other => other

def longOption (p : Place) (g : Given) (name : String) (value : Option String) :
    Except UsageError (Given × Ending) :=
  match p.long? name with
  | none => .error (.unknownOption ("--" ++ name))
  | some o =>
      match o.takesValue, value with
      | true, some v => (g.add o v).map fun g => (g, .done)
      | true, none => .ok (g, .pending o)
      | false, some _ => .error (.unexpectedValue o)
      | false, none => flag g o

/-- The argument has the shape of an option, so it is no value. -/
def looksLikeOption (argument : String) : Bool :=
  match shape argument with
  | .plain => false
  | _ => true

/-- The arguments of a place, where an option may wait for its value. -/
def scan (p : Place) : Given → Option Opt → List String → Except UsageError (Given × Ending)
  | g, none, [] => .ok (g, .done)
  | _, some o, [] => .error (.missingValue o)
  | g, some o, a :: as =>
      if looksLikeOption a then .error (.missingValue o)
      else
        match g.add o a with
        | .error e => .error e
        | .ok g => scan p g none as
  | g, none, a :: as =>
      let goOn : Except UsageError (Given × Ending) → Except UsageError (Given × Ending)
        | .ok (g, .done) => scan p g none as
        | .ok (g, .pending o) => scan p g (some o) as
        | other => other
      match shape a with
      | .separator => (g.push p as).map fun g => (g, .done)
      | .long name value => goOn (longOption p g name value)
      | .short cs => goOn (letters p g cs)
      | .plain =>
          if p = .front then
            if a = "help" then .ok (g, .help)
            else
              match Place.ofCommand? a with
              | some place => .ok (g, .command place as)
              | none => .error (.unknownCommand a)
          else goOn ((g.push p [a]).map fun g => (g, .done))

/-! ## Requests -/

inductive Demand where
  | run (request : Request)
  | version
  | help

/-- The presentation that a word names, text where there is none. -/
def formatOf (word : Option String) : Format := if word = some "json" then .json else .text

def commandOf (p : Place) (g : Given) : Except UsageError Command :=
  let shorthand := (g.value? .schema).getD ""
  let format := formatOf (g.value? .format)
  match p, g.arguments with
  | .migration, [name] => .ok (.migration name shorthand (g.has .fragments) format)
  | .pivot, [one, two] => .ok (.pivot one two (g.value? .schema))
  | .explain, [name] => .ok (.explain name shorthand format)
  | _, _ => .error .missingArgument

/-- On one of the two sides of a command's name, the directory of stubs is one that the option
may not have. What is given there was checked before, so it is the fallback. -/
def isRefused (fallback : Option String) (front g : Given) : Bool :=
  let refused (side : Given) : Bool :=
    ((side.value? .stubs).or fallback).any fun v => !Opt.stubs.accepts v
  refused front || refused g

/-- The request of the options before a command's name and what is given after it. A path given
after the name wins over one before it. Where no directory of stubs is given the fallback stands
in for it, and then has to be one that the option may have. -/
def requestOf (fallback : Option String) (front : Given) (p : Place) (g : Given) :
    Except UsageError Request := do
  let command ← commandOf p g
  if isRefused fallback front g then .error (.invalidValue .stubs (fallback.getD ""))
  else
    .ok
      { verbose := front.has .verbose || g.has .verbose
        stubsDirectory := (g.value? .stubs).or ((front.value? .stubs).or fallback)
        configFile := (g.value? .config).or (front.value? .config)
        command }

/-- What the arguments of the program ask for. The fallback stands in for the directory of
stubs. -/
def parse (fallback : Option String) (arguments : List String) : Except UsageError Demand := do
  match ← scan .front Given.empty none arguments with
  | (_, .version) => .ok .version
  | (_, .help) => .ok .help
  | (front, .command p rest) =>
      match ← scan p Given.empty none rest with
      | (_, .version) => .ok .version
      | (_, .help) => .ok .help
      | (g, _) => (requestOf fallback front p g).map .run
  | (_, _) => .error .missingCommand

end CommandLine

end MigrationDraft
