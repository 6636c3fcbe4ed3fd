import MigrationDraft.Proofs.Session.Failures

set_option autoImplicit false

/-!
# One source wins

The settings come from one file and the stubs from one directory. `Config.Decides` and `Supplies`
say which: a file or a directory that the command line names comes first, and nothing that comes
later in the order is looked at, whatever is wrong with what came first. A run is therefore a
function of what the winners hold. Two runs of a command that agree on them have the same outcome
(`run_congr`).
-/

namespace MigrationDraft

/-! ## The file that decides the settings -/

namespace Config

section

variable (files : Files) (userDirectory : Option String)

/-- The file that decides the settings where the command line names the given one, none where the
settings are the standard ones. -/
inductive Decides : Option String → Option String → Prop where
  /-- The named file decides, whether it is there or not. -/
  | named (path : String) : Decides (some path) (some path)
  /-- The project's own file decides if it is there. -/
  | project (h : files.isFile "schemagen.toml" = true) : Decides none (some "schemagen.toml")
  /-- The user's file decides if it is there and the project has none. -/
  | user {directory : String} (hproject : files.isFile "schemagen.toml" = false)
      (hdirectory : userDirectory = some directory)
      (h : files.isFile (userFile directory) = true) : Decides none (some (userFile directory))
  /-- No file is there. -/
  | standard (hproject : files.isFile "schemagen.toml" = false)
      (huser : ∀ directory, userDirectory = some directory →
        files.isFile (userFile directory) = false) : Decides none none

def ofSource : Option String → Except Failure Config
  | some path => ofFile files path
  | none => .ok standard

end

variable {files : Files} {userDirectory explicit : Option String}

theorem source?_of_decides {winner : Option String}
    (h : Decides files userDirectory explicit winner) :
    source? files userDirectory explicit = winner := by
  rcases h with path | h | ⟨hproject, hdirectory, h⟩ | ⟨hproject, huser⟩
  · rfl
  · simp [source?, candidates, projectFile, h]
  · simp [source?, candidates, projectFile, hproject, hdirectory, h]
  · cases userDirectory with
    | none => simp [source?, candidates, projectFile, hproject]
    | some directory => simp [source?, candidates, projectFile, hproject, huser directory rfl]

/-- There is always a winner. -/
theorem exists_decides (files : Files) (userDirectory explicit : Option String) :
    ∃ winner, Decides files userDirectory explicit winner := by
  cases explicit with
  | some path => exact ⟨_, .named path⟩
  | none =>
      cases hproject : files.isFile "schemagen.toml" with
      | true => exact ⟨_, .project hproject⟩
      | false =>
          cases userDirectory with
          | none => exact ⟨_, .standard hproject fun _ h => by cases h⟩
          | some directory =>
              cases huser : files.isFile (userFile directory) with
              | true => exact ⟨_, .user hproject rfl huser⟩
              | false =>
                  exact ⟨_, .standard hproject fun d hd => Option.some.inj hd ▸ huser⟩

/-- There is only one. -/
theorem Decides.unique {winner winner' : Option String}
    (h : Decides files userDirectory explicit winner)
    (h' : Decides files userDirectory explicit winner') : winner' = winner :=
  (source?_of_decides h').symm.trans (source?_of_decides h)

/-- The settings are those that the winner gives. -/
theorem discover_of_decides {winner : Option String}
    (h : Decides files userDirectory explicit winner) :
    discover files userDirectory explicit = ofSource files winner := by
  rw [discover, source?_of_decides h]
  rfl

/-- What a source gives is decided by what it reads as. -/
theorem ofSource_congr {files files' : Files} {winner winner' : Option String}
    (h : winner.map files.read = winner'.map files'.read) :
    ofSource files winner = ofSource files' winner' := by
  cases winner with
  | none =>
      cases winner' with
      | none => rfl
      | some path => cases h
  | some path =>
      cases winner' with
      | none => cases h
      | some path' =>
          have hread : files.read path = files'.read path' := Option.some.inj h
          show ofFile files path = ofFile files' path'
          rw [ofFile, ofFile, hread]

/-- A file that is no readable text, or whose text is no configuration, gives no settings. -/
theorem exists_ofFile_eq_error {files : Files} {path : String}
    (h : ∀ text config, files.read path = .ok text → ofToml text ≠ .ok config) :
    ∃ cause, ofFile files path = .error cause := by
  unfold ofFile
  cases hread : files.read path with
  | error e => exact ⟨_, rfl⟩
  | ok text =>
      cases htoml : ofToml text with
      | error e => exact ⟨.config e, by simp [htoml]⟩
      | ok config => exact absurd htoml (h text config hread)

end Config

/-! ## The directory that supplies the stubs -/

namespace Stubs

/-- The directory that supplies the stubs, from the one that the command line names and the
configured one. There is none where the stubs are the built-in ones. -/
inductive Supplies : Option String → Option String → Option String → Prop where
  | named (directory : String) (configured : Option String) :
      Supplies (some directory) configured (some directory)
  | configured (directory : String) : Supplies none (some directory) (some directory)
  | builtin : Supplies none none none

def ofDirectory? (files : Files) : Option String → Except ReadError Stubs
  | some directory => load files directory
  | none => .ok builtin

theorem supplies_iff {named configured directory? : Option String} :
    Supplies named configured directory? ↔ named.or configured = directory? := by
  constructor
  · rintro (_ | _ | _) <;> rfl
  · rintro rfl
    match named, configured with
    | some directory, configured => exact .named directory configured
    | none, some directory => exact .configured directory
    | none, none => exact .builtin

/-- The two directories, if any, hold the same stubs as far as they are read. -/
def SameFiles (files files' : Files) (directory? directory?' : Option String) : Prop :=
  (directory?.map fun d => fileNames.map fun name => files.read (Path.join d name))
    = directory?'.map fun d => fileNames.map fun name => files'.read (Path.join d name)

theorem readOr_congr {files files' : Files} {directory directory' name : String}
    (h : files.read (Path.join directory name) = files'.read (Path.join directory' name))
    (builtin : String) :
    readOr files directory name builtin = readOr files' directory' name builtin := by
  rw [readOr, readOr, h]

/-- What a directory gives is decided by what its files read as. -/
theorem SameFiles.ofDirectory?_eq {files files' : Files} {directory? directory?' : Option String}
    (h : SameFiles files files' directory? directory?') :
    ofDirectory? files directory? = ofDirectory? files' directory?' := by
  match directory?, directory?', h with
  | none, none, _ => rfl
  | some directory, some directory', h =>
      simp only [SameFiles, Option.map_some, Option.some.injEq, fileNames, List.map_cons,
        List.map_nil, List.cons.injEq, and_true] at h
      obtain ⟨hcreate, hchange, hmigration, hpivot, hpivotSchema⟩ := h
      show load files directory = load files' directory'
      rw [load, load, readOr_congr hcreate, readOr_congr hchange, readOr_congr hmigration,
        readOr_congr hpivot, readOr_congr hpivotSchema]

end Stubs

theorem Config.stubs_withStubs (c : Config) (directory? : Option String) (files : Files) :
    (c.withStubs directory?).stubs files
      = Stubs.ofDirectory? files (directory?.or c.stubsDirectory) := by
  unfold stubs withStubs
  cases directory?.or c.stubsDirectory <;> rfl

namespace Session

/-! ## What a run depends on -/

/-- A command depends on the settings by the place of migrations only, and on the surroundings by
the time and the colours. -/
theorem perform_congr {s s' : Surroundings} {config config' : Config}
    (hnow : s.now = s'.now) (hcolored : s.colored = s'.colored)
    (hpath : config.migrationsPath = config'.migrationsPath) (stubs : Stubs) (c : Command) :
    perform s config stubs c = perform s' config' stubs c := by
  cases c with
  | migration name shorthand bodiesOnly format =>
      have hdraft : draftOf s config stubs name = draftOf s' config' stubs name := by
        funext fragments
        rw [draftOf, draftOf, hnow, hpath]
      show writeMigration s config stubs name shorthand bodiesOnly format = _
      rw [writeMigration, draft, hdraft, hcolored]
      rfl
  | pivot one two shorthand =>
      show writePivot s config stubs one two shorthand
        = writePivot s' config' stubs one two shorthand
      rw [writePivot, writePivot, hnow, hcolored, hpath]
  | explain name shorthand format =>
      show explain s.colored format name shorthand = explain s'.colored format name shorthand
      rw [hcolored]

/-- What a command depends on of its settings and stubs. -/
def ingredients : Config × Stubs → String × Stubs
  | (config, stubs) => (config.migrationsPath, stubs)

section

variable {s s' : Surroundings} {r r' : Request}

/-- Runs of a command depend on their settings by what it takes of them only. -/
theorem run_congr_of_settings (hcommand : r.command = r'.command) (hnow : s.now = s'.now)
    (hcolored : s.colored = s'.colored)
    (h : (settings s r).map ingredients = (settings s' r').map ingredients) :
    run s r = run s' r' := by
  -- the settings are there in both runs or in none
  match hsettings : settings s r, hsettings' : settings s' r' with
  | .error e, .error e' =>
      rw [hsettings, hsettings'] at h
      obtain rfl : e = e' := Except.error.inj h
      rw [run_of_settings_eq_error hsettings, run_of_settings_eq_error hsettings', hcolored]
  | .ok (config, stubs), .ok (config', stubs') =>
      rw [hsettings, hsettings'] at h
      obtain ⟨hpath, rfl⟩ : config.migrationsPath = config'.migrationsPath ∧ stubs = stubs' :=
        Prod.mk.inj (Except.ok.inj h)
      have hperform : perform s config stubs r.command = perform s' config' stubs r'.command := by
        rw [hcommand]
        exact perform_congr hnow hcolored hpath stubs r'.command
      rw [run, run, execute_of_settings hsettings, execute_of_settings hsettings', hcolored,
        hperform]
  | .error e, .ok c =>
      rw [hsettings, hsettings'] at h
      cases h
  | .ok c, .error e =>
      rw [hsettings, hsettings'] at h
      cases h

theorem map_ingredients_settings {config : Config}
    (h : Config.discover s.files s.userDirectory r.configFile = .ok config) :
    (settings s r).map ingredients
      = ((Stubs.ofDirectory? s.files (r.stubsDirectory.or config.stubsDirectory)).mapError
          RunError.stubs).map fun stubs => (config.migrationsPath, stubs) := by
  rw [settings_of_discover h, Config.stubs_withStubs]
  cases Stubs.ofDirectory? s.files (r.stubsDirectory.or config.stubsDirectory) <;> rfl

/-- Two runs of a command at one time have the same outcome if their settings agree on the place of
migrations and the directories that supply their stubs hold the same. -/
theorem run_congr (hcommand : r.command = r'.command) (hnow : s.now = s'.now)
    (hcolored : s.colored = s'.colored)
    (hpath : (Config.discover s.files s.userDirectory r.configFile).map Config.migrationsPath
      = (Config.discover s'.files s'.userDirectory r'.configFile).map Config.migrationsPath)
    (hstubs : ∀ config config',
      Config.discover s.files s.userDirectory r.configFile = .ok config →
      Config.discover s'.files s'.userDirectory r'.configFile = .ok config' →
      Stubs.SameFiles s.files s'.files (r.stubsDirectory.or config.stubsDirectory)
        (r'.stubsDirectory.or config'.stubsDirectory)) :
    run s r = run s' r' := by
  refine run_congr_of_settings hcommand hnow hcolored ?_
  match hdiscover : Config.discover s.files s.userDirectory r.configFile,
      hdiscover' : Config.discover s'.files s'.userDirectory r'.configFile with
  | .error cause, .error cause' =>
      rw [hdiscover, hdiscover'] at hpath
      obtain rfl : cause = cause' := Except.error.inj hpath
      rw [settings_of_discover_eq_error hdiscover, settings_of_discover_eq_error hdiscover']
  | .ok config, .ok config' =>
      rw [hdiscover, hdiscover'] at hpath
      have hplace : config.migrationsPath = config'.migrationsPath := Except.ok.inj hpath
      rw [map_ingredients_settings hdiscover, map_ingredients_settings hdiscover', hplace,
        (hstubs config config' hdiscover hdiscover').ofDirectory?_eq]
  | .error cause, .ok config =>
      rw [hdiscover, hdiscover'] at hpath
      cases hpath
  | .ok config, .error cause =>
      rw [hdiscover, hdiscover'] at hpath
      cases hpath

/-! ## Winners -/

/-- Two runs of the same command, at the same time and with or without colours. -/
structure SameCommand (s : Surroundings) (r : Request) (s' : Surroundings) (r' : Request) :
    Prop where
  command : r.command = r'.command
  now : s.now = s'.now
  colored : s.colored = s'.colored

/-- The winners of two runs hold the same. -/
structure AgreeOnWinners (s : Surroundings) (r : Request) (s' : Surroundings) (r' : Request) :
    Prop where
  /-- The files that decide the settings read the same. -/
  config {winner winner' : Option String} :
    Config.Decides s.files s.userDirectory r.configFile winner →
    Config.Decides s'.files s'.userDirectory r'.configFile winner' →
    winner.map s.files.read = winner'.map s'.files.read
  /-- The directories that supply the stubs hold the same files. -/
  stubs {c : Config} {directory? directory?' : Option String} :
    Config.discover s.files s.userDirectory r.configFile = .ok c →
    Stubs.Supplies r.stubsDirectory c.stubsDirectory directory? →
    Stubs.Supplies r'.stubsDirectory c.stubsDirectory directory?' →
    Stubs.SameFiles s.files s'.files directory? directory?'

theorem AgreeOnWinners.discover_eq (h : AgreeOnWinners s r s' r') :
    Config.discover s.files s.userDirectory r.configFile
      = Config.discover s'.files s'.userDirectory r'.configFile := by
  obtain ⟨winner, hwinner⟩ := Config.exists_decides s.files s.userDirectory r.configFile
  obtain ⟨winner', hwinner'⟩ := Config.exists_decides s'.files s'.userDirectory r'.configFile
  rw [Config.discover_of_decides hwinner, Config.discover_of_decides hwinner']
  exact Config.ofSource_congr (h.config hwinner hwinner')

theorem run_eq_of_agreeOnWinners (hsame : SameCommand s r s' r') (h : AgreeOnWinners s r s' r') :
    run s r = run s' r' := by
  refine run_congr hsame.command hsame.now hsame.colored (by rw [h.discover_eq]) ?_
  intro c c' hc hc'
  obtain rfl : c = c' := Except.ok.inj (hc.symm.trans (h.discover_eq.trans hc'))
  exact h.stubs hc (Stubs.supplies_iff.mpr rfl) (Stubs.supplies_iff.mpr rfl)

/-- A directory of stubs on the command line leaves only the place of migrations to the settings. -/
theorem run_eq_of_named_stubs {directory directory' : String} (hsame : SameCommand s r s' r')
    (hnamed : r.stubsDirectory = some directory) (hnamed' : r'.stubsDirectory = some directory')
    (hfiles : Stubs.SameFiles s.files s'.files (some directory) (some directory'))
    (hpath : (Config.discover s.files s.userDirectory r.configFile).map Config.migrationsPath
      = (Config.discover s'.files s'.userDirectory r'.configFile).map Config.migrationsPath) :
    run s r = run s' r' := by
  refine run_congr hsame.command hsame.now hsame.colored hpath fun c c' _ _ => ?_
  rw [hnamed, hnamed']
  exact hfiles

/-- Where the winner cannot be read or is malformed there are no settings. -/
theorem exitCode_run_of_unreadable {path : String}
    (hwinner : Config.Decides s.files s.userDirectory r.configFile (some path))
    (h : ∀ text config, s.files.read path = .ok text → Config.ofToml text ≠ .ok config) :
    (run s r).exitCode = 1 := by
  obtain ⟨cause, hcause⟩ := Config.exists_ofFile_eq_error h
  exact exitCode_run_eq_one_iff.mpr
    ⟨_, .config ((Config.discover_of_decides hwinner).trans hcause)⟩

end

/-- **One source of the settings and one of the stubs wins, and nothing else is looked at.** The
settings are those of the winning file, and a run fails where this file cannot be read or is
malformed, whatever comes after it. The stubs are those of the winning directory. Two runs of a
command that agree on what the winners hold have the same outcome, and where the command line names
the directory of stubs, those that agree on it and on the place of migrations have. -/
theorem respond_of_winners (s : Surroundings) (arguments : List String) (r : Request)
    (h : CommandLine.parse s.stubsFallback arguments = .ok (.run r)) :
    (∃ winner, Config.Decides s.files s.userDirectory r.configFile winner
        ∧ (∀ other, Config.Decides s.files s.userDirectory r.configFile other → other = winner)
        ∧ Config.discover s.files s.userDirectory r.configFile = Config.ofSource s.files winner
        ∧ (∀ path, winner = some path →
          (∀ text config, s.files.read path = .ok text → Config.ofToml text ≠ .ok config) →
          (respond s arguments).exitCode = 1)
        ∧ ∀ config directory?, Config.ofSource s.files winner = .ok config →
          Stubs.Supplies r.stubsDirectory config.stubsDirectory directory? →
          (settings s r).map Prod.snd
            = (Stubs.ofDirectory? s.files directory?).mapError RunError.stubs)
      ∧ ∀ (s' : Surroundings) (arguments' : List String) (r' : Request),
        CommandLine.parse s'.stubsFallback arguments' = .ok (.run r') →
        SameCommand s r s' r' →
        (AgreeOnWinners s r s' r' → respond s arguments = respond s' arguments')
          ∧ ∀ directory directory', r.stubsDirectory = some directory →
            r'.stubsDirectory = some directory' →
            Stubs.SameFiles s.files s'.files (some directory) (some directory') →
            (Config.discover s.files s.userDirectory r.configFile).map Config.migrationsPath
              = (Config.discover s'.files s'.userDirectory r'.configFile).map
                  Config.migrationsPath →
            respond s arguments = respond s' arguments' := by
  have hrespond : respond s arguments = run s r := by
    rw [respond, h]
  constructor
  · obtain ⟨winner, hwinner⟩ := Config.exists_decides s.files s.userDirectory r.configFile
    have hdiscover := Config.discover_of_decides hwinner
    refine ⟨winner, hwinner, fun _ hother => hwinner.unique hother, hdiscover, ?_, ?_⟩
    · rintro path rfl hunreadable
      rw [hrespond]
      exact exitCode_run_of_unreadable hwinner hunreadable
    · intro config directory? hconfig hsupplies
      rw [settings_of_discover (hdiscover.trans hconfig), Config.stubs_withStubs,
        Stubs.supplies_iff.mp hsupplies]
      cases Stubs.ofDirectory? s.files directory? <;> rfl
  · intro s' arguments' r' h' hsame
    have hrespond' : respond s' arguments' = run s' r' := by
      rw [respond, h']
    rw [hrespond, hrespond']
    exact ⟨run_eq_of_agreeOnWinners hsame, fun _ _ => run_eq_of_named_stubs hsame⟩

/-- A project's settings with stubs of their own, and a user's settings with other stubs: the second
run has them and the first has not. -/
theorem respond_of_winners_project :
    let arguments := ["migration", "create_posts_table"]
    let r : Request := ⟨false, none, none, .migration "create_posts_table" "" false .text⟩
    let project : List (String × Except ReadError String) :=
      [("schemagen.toml", .ok "[stubs]\ndir = \"mine\"\n"),
        ("mine/migration.stub", .ok "class \x7b\x7bclass\x7d\x7d")]
    let user : List (String × Except ReadError String) :=
      [("user/schemagen/config.toml", .ok "[stubs]\ndir = \"theirs\"\n"),
        ("theirs/migration.stub", .error .isDirectory)]
    let files (entries : List (String × Except ReadError String)) : Files :=
      ⟨fun path => (entries.lookup path).isSome,
        fun path => (entries.lookup path).getD (.error .notFound)⟩
    let now : Timestamp := ⟨2024, 1, 31, 12, 5, 9⟩
    let s : Surroundings := ⟨files project, none, none, now, false⟩
    let s' : Surroundings := ⟨files (project ++ user), some "user", none, now, false⟩
    CommandLine.parse s.stubsFallback arguments = .ok (.run r)
      ∧ CommandLine.parse s'.stubsFallback arguments = .ok (.run r)
      ∧ SameCommand s r s' r ∧ AgreeOnWinners s r s' r
      ∧ respond s arguments = respond s' arguments := by
  intro arguments r project user files now s s'
  have hparse : CommandLine.parse s.stubsFallback arguments = .ok (.run r) := rfl
  have hparse' : CommandLine.parse s'.stubsFallback arguments = .ok (.run r) := rfl
  have hsame : SameCommand s r s' r := ⟨rfl, rfl, rfl⟩
  have hsource : Config.source? s.files s.userDirectory r.configFile = some "schemagen.toml" := by
    decide +kernel
  have hsource' : Config.source? s'.files s'.userDirectory r.configFile
      = some "schemagen.toml" := by
    decide +kernel
  have hdiscover : Config.discover s.files s.userDirectory r.configFile
      = .ok ⟨some "mine", Config.defaultMigrationsPath⟩ := by
    have hread : (Config.discover s.files s.userDirectory r.configFile).toOption
        = some ⟨some "mine", Config.defaultMigrationsPath⟩ := by
      decide +kernel
    cases hresult : Config.discover s.files s.userDirectory r.configFile with
    | error cause =>
        rw [hresult] at hread
        cases hread
    | ok config =>
        rw [hresult] at hread
        rw [Option.some.inj hread]
  have hwinners : AgreeOnWinners s r s' r := by
    constructor
    · intro winner winner' hwinner hwinner'
      rw [← Config.source?_of_decides hwinner, ← Config.source?_of_decides hwinner', hsource,
        hsource']
      rfl
    · intro c directory? directory?' hc hsupplies hsupplies'
      obtain rfl := Except.ok.inj (hdiscover.symm.trans hc)
      rw [← Stubs.supplies_iff.mp hsupplies, ← Stubs.supplies_iff.mp hsupplies']
      rfl
  exact ⟨hparse, hparse', hsame, hwinners,
    ((respond_of_winners s arguments r hparse).2 s' arguments r hparse' hsame).1 hwinners⟩

end Session

end MigrationDraft
