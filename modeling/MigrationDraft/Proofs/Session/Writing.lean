import MigrationDraft.Proofs.Intent.Reading
import MigrationDraft.Session

set_option autoImplicit false

/-!
# What a part of a run writes

A part of a run writes to both outputs and may stop with a failure. `Writes p out err` says that
the part `p` never fails and adds the texts `out` and `err`, whatever was written before it. Lines
do, and one part after another joins their texts, so every presentation of a result has this
property. Of the commands only the draft of a migration can fail, for its verb, and then nothing
has been written yet (`perform_migration_of_unknown`, `exists_writes_perform`).
-/

namespace MigrationDraft

/-! ## Bodies for known verbs -/

theorem Fragments.exists_build {intent : Intent} (h : intent.action.isOther = false)
    (stubs : Stubs) (columns : Schema) : ∃ f, build stubs columns intent = .ok f := by
  unfold build
  cases haction : intent.action with
  | other verb =>
      rw [haction] at h
      cases h
  | _ => exact ⟨_, rfl⟩

theorem Fragments.build_of_other {intent : Intent} {verb : String}
    (h : intent.action = .other verb) (stubs : Stubs) (columns : Schema) :
    build stubs columns intent = .error ⟨verb⟩ := by
  rw [build, h]

namespace Session

/-! ## Parts that never fail -/

/-- The part succeeds and adds these texts to the two outputs. -/
def Writes (p : Part Unit) (out err : String) : Prop :=
  ∀ w : Written, p w = (.ok (), ⟨w.stdout ++ out, w.stderr ++ err⟩)

theorem writes_say (line : String) : Writes (say line) (line ++ "\n") "" := by
  intro w
  rw [String.append_empty]
  rfl

theorem writes_note (line : String) : Writes (note line) "" (line ++ "\n") := by
  intro w
  rw [String.append_empty]
  rfl

theorem writes_pure : Writes (pure ()) "" "" := by
  intro w
  rw [String.append_empty, String.append_empty]
  rfl

/-- One part after another. -/
theorem Writes.next {p q : Part Unit} {out err out' err' : String} (hp : Writes p out err)
    (hq : Writes q out' err') : Writes (p >>= fun _ => q) (out ++ out') (err ++ err') := by
  intro w
  -- the second part starts with what the first has written, and only if that succeeds
  have hbind : (p >>= fun _ => q) w = ExceptT.bindCont (fun _ => q) (p w).1 (p w).2 := rfl
  rw [hbind, hp w]
  show q _ = _
  rw [hq, String.append_assoc, String.append_assoc]

theorem Writes.after_say {q : Part Unit} {out err : String} (hq : Writes q out err)
    (line : String) : Writes (say line >>= fun _ => q) (line ++ "\n" ++ out) err := by
  have h := (writes_say line).next hq
  rwa [String.empty_append] at h

theorem Writes.after_note {q : Part Unit} {out : String} (hq : Writes q out "")
    (line : String) : Writes (note line >>= fun _ => q) out (line ++ "\n") := by
  have h := (writes_note line).next hq
  rwa [String.empty_append, String.append_empty] at h

/-- A part for each thing in a list. -/
theorem writes_forM {α : Type} {f : α → Part Unit} {line : α → String}
    (h : ∀ a, Writes (f a) (line a) "") (as : List α) :
    Writes (as.forM f) (String.join (as.map line)) "" := by
  induction as with
  | nil => exact writes_pure
  | cons a as ih =>
      have hstep : (a :: as).forM f = (f a >>= fun _ => as.forM f) := rfl
      rw [hstep, List.map_cons, String.join_cons]
      exact (h a).next ih

/-! ## Presentations -/

/-- The two bodies, each on lines of its own under its heading. -/
theorem writes_fragments (colored : Bool) (f : Fragments) :
    Writes (writeFragments colored f)
      (heading colored "up:" ++ "\n" ++ (f.up ++ "\n" ++ ("" ++ "\n"
        ++ (heading colored "down:" ++ "\n" ++ (f.down ++ "\n"))))) "" :=
  ((((writes_say f.down).after_say _).after_say _).after_say _).after_say _

/-- The whole file, and where it belongs on the error output. -/
theorem writes_draft_text (colored : Bool) (d : Draft) :
    Writes (writeDraft colored false .text d) (d.content ++ "\n")
      (pathLine colored d.path ++ "\n") :=
  (writes_say d.content).after_note _

theorem exists_writes_draft (colored bodiesOnly : Bool) (format : Format) (d : Draft) :
    ∃ out err, Writes (writeDraft colored bodiesOnly format d) out err := by
  cases format with
  | text =>
      cases bodiesOnly with
      | false => exact ⟨_, _, writes_draft_text colored d⟩
      | true => exact ⟨_, _, writes_fragments colored d.fragments⟩
  | json =>
      cases bodiesOnly with
      | false => exact ⟨_, _, writes_say (draftRecord d).sortKeys.pretty⟩
      | true => exact ⟨_, _, writes_say (fragmentsRecord d.fragments).pretty⟩

theorem exists_writes_pivot (s : Surroundings) (config : Config) (stubs : Stubs)
    (one two : String) (shorthand : Option String) :
    ∃ out err, Writes (writePivot s config stubs one two shorthand) out err :=
  ⟨_, _, (writes_say _).after_note _⟩

theorem exists_writes_columns (colored : Bool) (columns : Schema) :
    ∃ out err, Writes (writeColumns colored columns) out err := by
  cases columns with
  | nil => exact ⟨_, _, writes_pure⟩
  | cons c columns => exact ⟨_, _, (writes_forM (fun _ => writes_say _) _).after_say _⟩

theorem exists_writes_explain (colored : Bool) (format : Format) (name shorthand : String) :
    ∃ out err, Writes (explain colored format name shorthand) out err := by
  cases format with
  | json => exact ⟨_, _, writes_say _⟩
  | text =>
      obtain ⟨out, err, hcolumns⟩ := exists_writes_columns colored (Schema.ofShorthand shorthand)
      exact ⟨_, _, ((hcolumns.after_say _).after_say _).after_say _⟩

/-! ## Commands -/

section

variable (s : Surroundings) (config : Config) (stubs : Stubs)

/-- A known verb has a draft. -/
theorem exists_draft {name : String} (h : Intent.verb name ∈ Action.verbs) (shorthand : String) :
    ∃ d, draft s config stubs name shorthand = .ok d := by
  have haction : (Intent.ofName name).action.isOther = false := by
    rw [Intent.action_ofName_eq]
    exact Action.isOther_ofVerb_eq_false_iff.mpr h
  obtain ⟨f, hf⟩ := Fragments.exists_build haction stubs (Schema.ofShorthand shorthand)
  rw [draft, hf]
  exact ⟨_, rfl⟩

/-- A draft for an unknown verb stops before anything is written. -/
theorem perform_migration_of_unknown {name : String} (h : Intent.verb name ∉ Action.verbs)
    (shorthand : String) (bodiesOnly : Bool) (format : Format) :
    perform s config stubs (.migration name shorthand bodiesOnly format)
      = throw (.intent name ⟨Intent.verb name⟩) := by
  have haction : (Intent.ofName name).action = .other (Intent.verb name) := by
    rw [Intent.action_ofName_eq, Action.ofVerb_of_not_mem h]
  have hdraft : draft s config stubs name shorthand = .error ⟨Intent.verb name⟩ := by
    rw [draft, Fragments.build_of_other haction]
    rfl
  show writeMigration s config stubs name shorthand bodiesOnly format = _
  rw [writeMigration, hdraft]
  rfl

/-- Every presentation of a migration is one of its draft. -/
theorem perform_migration_of_draft {name shorthand : String} {d : Draft}
    (h : draft s config stubs name shorthand = .ok d) (bodiesOnly : Bool) (format : Format) :
    perform s config stubs (.migration name shorthand bodiesOnly format)
      = writeDraft s.colored bodiesOnly format d := by
  show writeMigration s config stubs name shorthand bodiesOnly format = _
  rw [writeMigration, h]
  rfl

/-- Everything but a draft for an unknown verb succeeds. -/
theorem exists_writes_perform {c : Command}
    (h : ∀ {name shorthand bodiesOnly format},
      c = .migration name shorthand bodiesOnly format → Intent.verb name ∈ Action.verbs) :
    ∃ out err, Writes (perform s config stubs c) out err := by
  cases c with
  | migration name shorthand bodiesOnly format =>
      obtain ⟨d, hd⟩ := exists_draft s config stubs (h rfl) shorthand
      rw [perform_migration_of_draft s config stubs hd]
      exact exists_writes_draft s.colored bodiesOnly format d
  | pivot one two shorthand => exact exists_writes_pivot s config stubs one two shorthand
  | explain name shorthand format => exact exists_writes_explain s.colored format name shorthand

end

end Session

end MigrationDraft
