import MigrationDraft.Proofs.Session.Writing

set_option autoImplicit false

/-!
# Runs that fail

A run fails for one of three causes: there are no settings, the stubs cannot be read, or the verb
of a migration is not known. `Fails s r e` says that `e` is the cause that the user is told of. It
decides the whole outcome: a run with a cause tells it and has written nothing before
(`run_of_fails`), and a run without one succeeds (`exists_run_of_not_fails`).
-/

namespace MigrationDraft

namespace Session

/-! ## Causes of a failure -/

section

variable (s : Surroundings) (r : Request)

def NoSettings : Prop :=
  ∃ cause, Config.discover s.files s.userDirectory r.configFile = .error cause

/-- The directory of stubs, the one of the request or else the configured one, cannot be loaded. -/
def NoStubs : Prop :=
  ∃ config directory cause, Config.discover s.files s.userDirectory r.configFile = .ok config
    ∧ r.stubsDirectory.or config.stubsDirectory = some directory
    ∧ Stubs.load s.files directory = .error cause

/-- The request is for a migration whose verb is not known. -/
def NoIntent : Prop :=
  ∃ name shorthand bodiesOnly format,
    r.command = .migration name shorthand bodiesOnly format ∧ Intent.verb name ∉ Action.verbs

/-- The cause that a run fails for. The settings come before the stubs, and these before the
verb. -/
inductive Fails : RunError → Prop where
  | config {cause : Failure}
      (h : Config.discover s.files s.userDirectory r.configFile = .error cause) :
      Fails (.config cause)
  | stubs {config : Config} {directory : String} {cause : ReadError}
      (hconfig : Config.discover s.files s.userDirectory r.configFile = .ok config)
      (hdirectory : r.stubsDirectory.or config.stubsDirectory = some directory)
      (hload : Stubs.load s.files directory = .error cause) : Fails (.stubs cause)
  | intent {config : Config} {stubs : Stubs} {name shorthand : String} {bodiesOnly : Bool}
      {format : Format} (hsettings : settings s r = .ok (config, stubs))
      (hcommand : r.command = .migration name shorthand bodiesOnly format)
      (hverb : Intent.verb name ∉ Action.verbs) : Fails (.intent name ⟨Intent.verb name⟩)

end

section

variable {s : Surroundings} {r : Request}

/-! ## Settings -/

theorem settings_of_discover_eq_error {cause : Failure}
    (h : Config.discover s.files s.userDirectory r.configFile = .error cause) :
    settings s r = .error (.config cause) := by
  rw [settings, h]
  rfl

theorem settings_of_discover {config : Config}
    (h : Config.discover s.files s.userDirectory r.configFile = .ok config) :
    settings s r
      = (((config.withStubs r.stubsDirectory).stubs s.files).mapError RunError.stubs).map
          fun stubs => (config.withStubs r.stubsDirectory, stubs) := by
  rw [settings, h]
  rfl

theorem stubs_eq_error_iff {config : Config} {directory? : Option String} {files : Files}
    {cause : ReadError} :
    (config.withStubs directory?).stubs files = .error cause
      ↔ ∃ directory, directory?.or config.stubsDirectory = some directory
        ∧ Stubs.load files directory = .error cause := by
  unfold Config.stubs Config.withStubs
  cases directory?.or config.stubsDirectory with
  | none => simp
  | some directory => simp

/-- A run has settings unless they or the stubs cannot be read. -/
theorem exists_settings (hconfig : ¬NoSettings s r) (hstubs : ¬NoStubs s r) :
    ∃ config stubs, settings s r = .ok (config, stubs) := by
  cases hdiscover : Config.discover s.files s.userDirectory r.configFile with
  | error cause => exact absurd ⟨cause, hdiscover⟩ hconfig
  | ok config =>
      cases hload : (config.withStubs r.stubsDirectory).stubs s.files with
      | error cause =>
          obtain ⟨directory, hdirectory, hload⟩ := stubs_eq_error_iff.mp hload
          exact absurd ⟨config, directory, cause, hdiscover, hdirectory, hload⟩ hstubs
      | ok stubs =>
          rw [settings_of_discover hdiscover, hload]
          exact ⟨_, stubs, rfl⟩

/-- The three causes, whichever of them the user is told of. -/
theorem exists_fails_iff : (∃ e, Fails s r e) ↔ NoSettings s r ∨ NoStubs s r ∨ NoIntent r := by
  constructor
  · rintro ⟨e, hconfig | ⟨hconfig, hdirectory, hload⟩ | ⟨_, hcommand, hverb⟩⟩
    · exact Or.inl ⟨_, hconfig⟩
    · exact Or.inr (Or.inl ⟨_, _, _, hconfig, hdirectory, hload⟩)
    · exact Or.inr (Or.inr ⟨_, _, _, _, hcommand, hverb⟩)
  · intro h
    -- the user is told of the first cause that there is
    by_cases hconfig : NoSettings s r
    · obtain ⟨cause, hcause⟩ := hconfig
      exact ⟨_, .config hcause⟩
    · by_cases hstubs : NoStubs s r
      · obtain ⟨config, directory, cause, hconfig, hdirectory, hload⟩ := hstubs
        exact ⟨_, .stubs hconfig hdirectory hload⟩
      · obtain ⟨name, shorthand, bodiesOnly, format, hcommand, hverb⟩ :=
          (h.resolve_left hconfig).resolve_left hstubs
        obtain ⟨config, stubs, hsettings⟩ := exists_settings hconfig hstubs
        exact ⟨_, .intent hsettings hcommand hverb⟩

/-! ## Outcomes -/

theorem run_of_settings_eq_error {e : RunError} (h : settings s r = .error e) :
    run s r = ⟨1, "", errorLine s.colored e ++ "\n"⟩ := by
  have hexecute : execute s r = throw e := by
    rw [execute, h]
    rfl
  rw [run, hexecute]
  show (⟨1, "", "" ++ (errorLine s.colored e ++ "\n")⟩ : Outcome) = _
  rw [String.empty_append]

/-- From its settings on, a run does its command. -/
theorem execute_of_settings {config : Config} {stubs : Stubs}
    (h : settings s r = .ok (config, stubs)) :
    execute s r = perform s config stubs r.command := by
  rw [execute, h]
  rfl

/-- A run with a cause to fail tells it, and that is all it writes. -/
theorem run_of_fails {e : RunError} (h : Fails s r e) :
    run s r = ⟨1, "", errorLine s.colored e ++ "\n"⟩ := by
  cases h with
  | config h => exact run_of_settings_eq_error (settings_of_discover_eq_error h)
  | @stubs config directory cause hconfig hdirectory hload =>
      refine run_of_settings_eq_error ?_
      rw [settings_of_discover hconfig, stubs_eq_error_iff.mpr ⟨directory, hdirectory, hload⟩]
      rfl
  | @intent config stubs name shorthand bodiesOnly format hsettings hcommand hverb =>
      rw [run, execute_of_settings hsettings, hcommand,
        perform_migration_of_unknown s config stubs hverb]
      show (⟨1, "", "" ++ (errorLine s.colored (.intent name ⟨Intent.verb name⟩) ++ "\n")⟩
        : Outcome) = _
      rw [String.empty_append]

/-- A part that never fails decides the outcome of a run. -/
theorem run_of_writes {config : Config} {stubs : Stubs} {out err : String}
    (hsettings : settings s r = .ok (config, stubs))
    (h : Writes (perform s config stubs r.command) out err) : run s r = ⟨0, out, err⟩ := by
  rw [run, execute_of_settings hsettings, h]
  show (⟨0, "" ++ out, "" ++ err⟩ : Outcome) = _
  rw [String.empty_append, String.empty_append]

/-- A run without a cause to fail succeeds. -/
theorem exists_run_of_not_fails (h : ¬∃ e, Fails s r e) : ∃ out err, run s r = ⟨0, out, err⟩ := by
  rw [exists_fails_iff, not_or, not_or] at h
  obtain ⟨hconfig, hstubs, hintent⟩ := h
  obtain ⟨config, stubs, hsettings⟩ := exists_settings hconfig hstubs
  obtain ⟨out, err, hwrites⟩ := exists_writes_perform s config stubs (c := r.command)
    fun {name shorthand bodiesOnly format} hcommand =>
      Decidable.not_not.mp fun hverb =>
        hintent ⟨name, shorthand, bodiesOnly, format, hcommand, hverb⟩
  exact ⟨out, err, run_of_writes hsettings hwrites⟩

theorem exitCode_run_eq_one_iff : (run s r).exitCode = 1 ↔ ∃ e, Fails s r e := by
  constructor
  · intro h
    by_cases hfails : ∃ e, Fails s r e
    · exact hfails
    · obtain ⟨out, err, hrun⟩ := exists_run_of_not_fails hfails
      rw [hrun] at h
      cases h
  · rintro ⟨e, he⟩
    rw [run_of_fails he]

theorem exitCode_run_eq_zero_iff : (run s r).exitCode = 0 ↔ ¬∃ e, Fails s r e := by
  constructor
  · intro h hfails
    rw [exitCode_run_eq_one_iff.mpr hfails] at h
    cases h
  · intro h
    obtain ⟨out, err, hrun⟩ := exists_run_of_not_fails h
    rw [hrun]

end

end Session

/-! ## Shorthand texts -/

def Command.withShorthand (text : String) : Command → Command
  | .migration name _ bodiesOnly format => .migration name text bodiesOnly format
  | .pivot one two _ => .pivot one two (some text)
  | .explain name _ format => .explain name text format

theorem Command.exists_withShorthand_eq_migration_iff {c : Command} {text name : String}
    {bodiesOnly : Bool} {format : Format} :
    (∃ shorthand, c.withShorthand text = .migration name shorthand bodiesOnly format)
      ↔ ∃ shorthand, c = .migration name shorthand bodiesOnly format := by
  cases c <;> simp [withShorthand]

def Request.withShorthand (r : Request) (text : String) : Request :=
  { r with command := r.command.withShorthand text }

namespace Session

/-- A request with the same settings that is for a migration of the same name, if the first one is,
fails for the same cause. -/
theorem Fails.congr {s : Surroundings} {r r' : Request} {e : RunError} (h : Fails s r e)
    (hconfig : r'.configFile = r.configFile) (hstubs : r'.stubsDirectory = r.stubsDirectory)
    (hcommand : ∀ {name shorthand bodiesOnly format},
      r.command = .migration name shorthand bodiesOnly format →
      ∃ shorthand, r'.command = .migration name shorthand bodiesOnly format) : Fails s r' e := by
  cases h with
  | config h => exact .config (hconfig ▸ h)
  | stubs h hdirectory hload => exact .stubs (hconfig ▸ h) (hstubs ▸ hdirectory) hload
  | intent hsettings h hverb =>
      have hsame : settings s r' = settings s r := by
        rw [settings, settings, hconfig, hstubs]
      obtain ⟨shorthand, h'⟩ := hcommand h
      exact .intent (hsame.trans hsettings) h' hverb

/-- What a run fails for does not hang on the shorthand text. -/
theorem fails_withShorthand_iff {s : Surroundings} {r : Request} {e : RunError} (text : String) :
    Fails s (r.withShorthand text) e ↔ Fails s r e := by
  constructor
  · intro h
    exact h.congr rfl rfl fun hc =>
      Command.exists_withShorthand_eq_migration_iff.mp ⟨_, hc⟩
  · intro h
    exact h.congr rfl rfl fun hc =>
      Command.exists_withShorthand_eq_migration_iff.mpr ⟨_, hc⟩

theorem run_withShorthand_of_fails {s : Surroundings} {r : Request} {e : RunError}
    (h : Fails s r e) (text : String) : run s (r.withShorthand text) = run s r := by
  rw [run_of_fails h, run_of_fails ((fails_withShorthand_iff text).mpr h)]

theorem exitCode_run_withShorthand (s : Surroundings) (r : Request) (text : String) :
    (run s (r.withShorthand text)).exitCode = (run s r).exitCode := by
  by_cases hfails : ∃ e, Fails s r e
  · obtain ⟨e, he⟩ := hfails
    rw [run_withShorthand_of_fails he]
  · have hother : ¬∃ e, Fails s (r.withShorthand text) e := by
      simpa only [fails_withShorthand_iff] using hfails
    rw [exitCode_run_eq_zero_iff.mpr hfails, exitCode_run_eq_zero_iff.mpr hother]

/-- Only a migration has a verb that may not be known. -/
theorem exitCode_run_of_not_migration {s : Surroundings} {r : Request} (hconfig : ¬NoSettings s r)
    (hstubs : ¬NoStubs s r)
    (h : ∀ name shorthand bodiesOnly format,
      r.command ≠ .migration name shorthand bodiesOnly format) : (run s r).exitCode = 0 := by
  rw [exitCode_run_eq_zero_iff, exists_fails_iff]
  rintro (hfails | hfails | ⟨name, shorthand, bodiesOnly, format, hcommand, _⟩)
  · exact hconfig hfails
  · exact hstubs hfails
  · exact h _ _ _ _ hcommand

/-- **Failure is decided exactly and leaves no output.** A command line that is understood fails if
and only if the settings cannot be read, or the stubs cannot, or a migration has a verb that is not
known, and else it succeeds. A failing run writes nothing to the standard output. The shorthand text
makes no difference to this, nor to what a failing run tells. Once the settings and the stubs can be
read, every pivot table and every reading succeeds. -/
theorem respond_fails_iff (s : Surroundings) (arguments : List String) (r : Request)
    (h : CommandLine.parse s.stubsFallback arguments = .ok (.run r)) :
    ((respond s arguments).exitCode = 1 ↔ NoSettings s r ∨ NoStubs s r ∨ NoIntent r)
      ∧ ((respond s arguments).exitCode ≠ 1 → (respond s arguments).exitCode = 0)
      ∧ ((respond s arguments).exitCode = 1 → (respond s arguments).stdout = "")
      ∧ (∀ text, (run s (r.withShorthand text)).exitCode = (respond s arguments).exitCode
          ∧ ((respond s arguments).exitCode = 1 →
            run s (r.withShorthand text) = respond s arguments))
      ∧ (¬NoSettings s r → ¬NoStubs s r →
          (∀ one two shorthand,
              (run s { r with command := .pivot one two shorthand }).exitCode = 0)
            ∧ ∀ name shorthand format,
              (run s { r with command := .explain name shorthand format }).exitCode = 0) := by
  have hrespond : respond s arguments = run s r := by
    rw [respond, h]
  rw [hrespond]
  refine ⟨exitCode_run_eq_one_iff.trans exists_fails_iff, fun hcode => ?_, fun hcode => ?_,
    fun text => ⟨exitCode_run_withShorthand s r text, fun hcode => ?_⟩, fun hconfig hstubs => ?_⟩
  · exact exitCode_run_eq_zero_iff.mpr (mt exitCode_run_eq_one_iff.mpr hcode)
  · obtain ⟨e, he⟩ := exitCode_run_eq_one_iff.mp hcode
    rw [run_of_fails he]
  · obtain ⟨e, he⟩ := exitCode_run_eq_one_iff.mp hcode
    exact run_withShorthand_of_fails he text
  · -- the settings and the stubs of a request do not hang on its command
    exact ⟨fun one two shorthand => exitCode_run_of_not_migration
        (r := { r with command := .pivot one two shorthand }) hconfig hstubs (by simp),
      fun name shorthand format => exitCode_run_of_not_migration
        (r := { r with command := .explain name shorthand format }) hconfig hstubs (by simp)⟩

/-- A migration with an unknown verb, open parentheses in its shorthand and a directory without
stubs: it fails with any other text too, and the reading of its name does not. -/
theorem respond_fails_iff_rename :
    let s : Surroundings :=
      ⟨⟨fun _ => false, fun _ => .error .notFound⟩, some "user", none, ⟨2024, 1, 31, 12, 5, 9⟩,
        true⟩
    let arguments := ["--stubs", "none", "migration", "rename_users_table", "-s", "a:string((,"]
    let r : Request :=
      ⟨false, some "none", none, .migration "rename_users_table" "a:string((," false .text⟩
    CommandLine.parse s.stubsFallback arguments = .ok (.run r)
      ∧ (respond s arguments).exitCode = 1 ∧ (respond s arguments).stdout = ""
      ∧ (∀ text, run s (r.withShorthand text) = respond s arguments)
      ∧ ∀ name shorthand format,
        (run s { r with command := .explain name shorthand format }).exitCode = 0 := by
  intro s arguments r
  have hparse : CommandLine.parse s.stubsFallback arguments = .ok (.run r) := rfl
  obtain ⟨hfails, _, hsilent, htext, hothers⟩ := respond_fails_iff s arguments r hparse
  have hcode : (respond s arguments).exitCode = 1 :=
    hfails.mpr (Or.inr (Or.inr ⟨_, _, _, _, rfl, by decide +kernel⟩))
  have hconfig : ¬NoSettings s r := by
    rintro ⟨cause, hcause⟩
    cases hcause
  have hstubs : ¬NoStubs s r := by
    rintro ⟨config, directory, cause, _, hdirectory, hload⟩
    obtain rfl : "none" = directory := Option.some.inj hdirectory
    cases hload
  exact ⟨hparse, hcode, hsilent hcode, fun text => (htext text).2 hcode,
    (hothers hconfig hstubs).2⟩

end Session

end MigrationDraft
