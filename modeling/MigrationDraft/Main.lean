import MigrationDraft.Session
import Std.Time.Zoned

set_option autoImplicit false

/-!
# The program

The outer layer: it reads the files that a run may ask for, the variables and the clock, hands
them to `Session.respond` and writes what comes back.
-/

namespace MigrationDraft.Program

/-- The system's number for an error, which may come with its sign turned. -/
def isNumber (n code : UInt32) : Bool := code == n || code == 0 - n

/-- The cause behind an error of the system. -/
def readError : IO.Error → ReadError
  | .noFileOrDirectory .. => .notFound
  | .inappropriateType _ code text =>
      if isNumber 20 code then .notDirectory
      else if isNumber 21 code then .isDirectory
      else .other text
  | .invalidArgument _ code text => if isNumber 36 code then .nameTooLong else .other text
  | e => .other (toString e)

def readPath (path : String) : IO (Except ReadError String) := do
  if path.isEmpty then
    return .error .notFound
  if path.contains '\x00' then
    return .error .zeroInName
  try
    return textOfBytes (← IO.FS.readBinFile path)
  catch e =>
    return .error (readError e)

/-- What the given paths read as. -/
def readAll (paths : List String) : IO (List (String × Except ReadError String)) :=
  paths.mapM fun path => do return (path, ← readPath path)

def showsFile : Except ReadError String → Bool
  | .ok _ | .error .invalidText | .error (.other _) => true
  | .error _ => false

/-- The files as far as they have been read. -/
def filesOf (read : List (String × Except ReadError String)) : Files :=
  { isFile := fun path => (read.lookup path).any showsFile
    read := fun path => (read.lookup path).getD (.error .notFound) }

/-- The files that the arguments make a run look at: those that may hold its settings, and then
the stubs of the directory that they name. -/
def filesFor (fallback userDirectory : Option String) (arguments : List String) : IO Files := do
  match CommandLine.parse fallback arguments with
  | .ok (.run request) =>
      let configs ← readAll (request.configFile.toList ++ Config.candidates userDirectory)
      match Config.discover (filesOf configs) userDirectory request.configFile with
      | .ok config =>
          match request.stubsDirectory.or config.stubsDirectory with
          | some directory =>
              let stubs ← readAll (Stubs.fileNames.map fun name => Path.join directory name)
              return filesOf (configs ++ stubs)
          | none => return filesOf configs
      | .error _ => return filesOf configs
  | _ => return filesOf []

def userDirectory : IO (Option String) := do
  let absolute (path : String) : Bool := Text.startsWith ['/'] path.toList
  match ← IO.getEnv "XDG_CONFIG_HOME" with
  | some path =>
      if absolute path then
        return some path
  | none => pure ()
  match ← IO.getEnv "HOME" with
  | some home => return if home.isEmpty then none else some (Path.join home ".config")
  | none => return none

/-- Colours are wanted: because they are forced, or because nothing speaks against them and a
terminal shows the output. -/
def wantsColors : IO Bool := do
  let forced ← IO.getEnv "CLICOLOR_FORCE"
  let refused ← IO.getEnv "NO_COLOR"
  let allowed ← IO.getEnv "CLICOLOR"
  if forced.any (· ≠ "0") then
    return true
  else if refused.isSome || allowed == some "0" then
    return false
  else
    (← IO.getStdout).isTty

def now : IO Timestamp := do
  let t ← Std.Time.PlainDateTime.now
  return {
    year := t.year
    month := t.month.val.toNat
    day := t.day.val.toNat
    hour := t.hour.val.toNat
    minute := t.minute.val.toNat
    second := t.second.val.toNat }

end MigrationDraft.Program

def main (arguments : List String) : IO UInt32 := do
  let fallback ← IO.getEnv "SCHEMAGEN_STUBS"
  let directory ← MigrationDraft.Program.userDirectory
  let surroundings : MigrationDraft.Surroundings :=
    { files := ← MigrationDraft.Program.filesFor fallback directory arguments
      userDirectory := directory
      stubsFallback := fallback
      now := ← MigrationDraft.Program.now
      colored := ← MigrationDraft.Program.wantsColors }
  let outcome := MigrationDraft.Session.respond surroundings arguments
  (← IO.getStdout).putStr outcome.stdout
  (← IO.getStderr).putStr outcome.stderr
  return outcome.exitCode.toUInt32
