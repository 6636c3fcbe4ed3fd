import MigrationDraft.Proofs.Json.ReadBack
import MigrationDraft.Proofs.Session.Failures

set_option autoImplicit false

/-!
# Presentations of a migration

A migration is shown as text or as a record, and as a whole file or by its two bodies. All four are
presentations of one draft, and the intent of the draft is the one that is shown as the reading of
its name. A record is known from the output that shows it (`Shows`), whatever texts it holds, so
records and texts tell the same.
-/

namespace MigrationDraft.Session

/-- The run succeeds, and its output reads as the value. -/
def Shows (o : Outcome) (v : Json) : Prop :=
  o.exitCode = 0 ∧ o.stderr = "" ∧ Json.read o.stdout = some v

theorem intent_of_draft {s : Surroundings} {config : Config} {stubs : Stubs}
    {name shorthand : String} {d : Draft} (h : draft s config stubs name shorthand = .ok d) :
    d.intent = Intent.ofName name := by
  unfold draft at h
  cases hbuild : Fragments.build stubs (Schema.ofShorthand shorthand) (Intent.ofName name) with
  | error e =>
      rw [hbuild] at h
      cases h
  | ok f =>
      rw [hbuild] at h
      exact Except.ok.inj h ▸ rfl

section

variable {s : Surroundings} {r : Request} {config : Config} {stubs : Stubs}

/-! ## Runs that show a value -/

theorem run_command_of_writes {c : Command} {out err : String}
    (hsettings : settings s r = .ok (config, stubs))
    (h : Writes (perform s config stubs c) out err) :
    run s { r with command := c } = ⟨0, out, err⟩ :=
  -- the settings of a request do not hang on its command
  run_of_writes (r := { r with command := c }) hsettings h

theorem shows_of_writes_pretty {c : Command} {v : Json}
    (hsettings : settings s r = .ok (config, stubs))
    (h : Writes (perform s config stubs c) (v.pretty ++ "\n") "") :
    Shows (run s { r with command := c }) v := by
  have hgap : ∀ c ∈ "\n".toList, Json.isGap c = true := by simp [Json.isGap]
  rw [run_command_of_writes hsettings h]
  exact ⟨rfl, rfl, Json.read_pretty v hgap⟩

theorem shows_reading (hsettings : settings s r = .ok (config, stubs)) (name shorthand : String) :
    Shows (run s { r with command := .explain name shorthand .json })
      (readingRecord (Intent.ofName name) (Schema.ofShorthand shorthand)).sortKeys :=
  shows_of_writes_pretty hsettings (writes_say _)

/-! ## Runs for a draft -/

section

variable {name shorthand : String} {d : Draft} (hsettings : settings s r = .ok (config, stubs))
  (hd : draft s config stubs name shorthand = .ok d)

include hsettings hd

theorem shows_draft :
    Shows (run s { r with command := .migration name shorthand false .json })
      (draftRecord d).sortKeys := by
  refine shows_of_writes_pretty hsettings ?_
  rw [perform_migration_of_draft s config stubs hd]
  exact writes_say _

theorem shows_fragments :
    Shows (run s { r with command := .migration name shorthand true .json })
      (fragmentsRecord d.fragments) := by
  refine shows_of_writes_pretty hsettings ?_
  rw [perform_migration_of_draft s config stubs hd]
  exact writes_say _

variable (hcolored : s.colored = false)

include hcolored

theorem run_draft :
    run s { r with command := .migration name shorthand false .text }
      = ⟨0, d.content ++ "\n", "Migration: " ++ d.path ++ "\n"⟩ := by
  refine run_command_of_writes hsettings ?_
  rw [perform_migration_of_draft s config stubs hd, hcolored]
  exact writes_draft_text false d

theorem run_fragments :
    run s { r with command := .migration name shorthand true .text }
      = ⟨0, String.join (["up:", d.fragments.up, "", "down:", d.fragments.down].map (· ++ "\n")),
        ""⟩ := by
  refine run_command_of_writes hsettings ?_
  rw [perform_migration_of_draft s config stubs hd, hcolored]
  show Writes (writeFragments false d.fragments) _ _
  simpa [String.join_cons, heading, Console.paint] using writes_fragments false d.fragments

end

/-- **Texts and records carry the same data.** For a migration whose verb is known, the record of
the whole file holds the content that is shown as text and the path that is told with it, and it
has the action and the table of the reading of its name. The record of the bodies holds the two
texts that are shown under their headings. -/
theorem presentations_agree (hsettings : settings s r = .ok (config, stubs))
    (hcolored : s.colored = false) {name : String} (hverb : Intent.verb name ∈ Action.verbs)
    (shorthand other : String) :
    ∃ (file bodies reading : Json) (content path action table up down : String),
      Shows (run s { r with command := .migration name shorthand false .json }) file
        ∧ Shows (run s { r with command := .migration name shorthand true .json }) bodies
        ∧ Shows (run s { r with command := .explain name other .json }) reading
        ∧ file.findString? ["content"] = some content
        ∧ file.findString? ["path"] = some path
        ∧ run s { r with command := .migration name shorthand false .text }
          = ⟨0, content ++ "\n", "Migration: " ++ path ++ "\n"⟩
        ∧ file.findString? ["action"] = some action
        ∧ reading.findString? ["intent", "action"] = some action
        ∧ file.findString? ["table"] = some table
        ∧ reading.findString? ["intent", "table"] = some table
        ∧ bodies.findString? ["up"] = some up
        ∧ bodies.findString? ["down"] = some down
        ∧ run s { r with command := .migration name shorthand true .text }
          = ⟨0, String.join (["up:", up, "", "down:", down].map (· ++ "\n")), ""⟩ := by
  obtain ⟨d, hd⟩ := exists_draft s config stubs hverb shorthand
  have hintent : d.intent = Intent.ofName name := intent_of_draft hd
  refine ⟨(draftRecord d).sortKeys, fragmentsRecord d.fragments,
    (readingRecord (Intent.ofName name) (Schema.ofShorthand other)).sortKeys, d.content, d.path,
    d.intent.action.text, d.intent.table, d.fragments.up, d.fragments.down,
    shows_draft hsettings hd, shows_fragments hsettings hd, shows_reading hsettings name other,
    ?_, ?_, run_draft hsettings hd hcolored, ?_, ?_, ?_, ?_, rfl, rfl,
    run_fragments hsettings hd hcolored⟩
  all_goals rw [Json.findString?_sortKeys]
  · rfl
  · rfl
  · rfl
  · rw [hintent]
    rfl
  · rfl
  · rw [hintent]
    rfl

end

/-- A stub of the user's own with quotes, a backslash and a control character, and a default with a
quote and a line end. -/
theorem presentations_agree_posts :
    let stub := "say \"\\ \x7b\x7bclass\x7d\x7d\"\x07\n\x7b\x7bschema_up\x7d\x7d"
    let files : Files :=
      ⟨fun _ => false,
        fun path => if path = "mine/migration.stub" then .ok stub else .error .notFound⟩
    let s : Surroundings := ⟨files, none, none, ⟨2024, 1, 31, 12, 5, 9⟩, false⟩
    let name := "create_posts_table"
    let shorthand := "title:string:default('\"\n')"
    let r : Request := ⟨false, some "mine", none, .migration name shorthand false .text⟩
    settings s r
        = .ok (Config.standard.withStubs (some "mine"), { Stubs.builtin with migration := stub })
      ∧ s.colored = false ∧ Intent.verb name ∈ Action.verbs
      ∧ ∃ file content path,
        Shows (run s { r with command := .migration name shorthand false .json }) file
          ∧ file.findString? ["content"] = some content
          ∧ file.findString? ["path"] = some path
          ∧ run s r = ⟨0, content ++ "\n", "Migration: " ++ path ++ "\n"⟩ := by
  intro stub files s name shorthand r
  have hsettings : settings s r
      = .ok (Config.standard.withStubs (some "mine"), { Stubs.builtin with migration := stub }) :=
    rfl
  have hverb : Intent.verb name ∈ Action.verbs := by decide +kernel
  obtain ⟨file, _, _, content, path, _, _, _, _, hfile, _, _, hcontent, hpath, hrun, _⟩ :=
    presentations_agree hsettings rfl hverb shorthand ""
  exact ⟨hsettings, rfl, hverb, file, content, path, hfile, hcontent, hpath, hrun⟩

end MigrationDraft.Session
