import MigrationDraft.Column
import MigrationDraft.Intent
import MigrationDraft.Proofs.Intent.CanonicalNames
import MigrationDraft.Proofs.Json.ReadBack
import MigrationDraft.Proofs.Shorthand.Invariant

set_option autoImplicit false

/-!
# Records that lose nothing

A record is known from its text (`Json.compact_inj`), and what it is the record of is known from
the record, with two exceptions. The marker has the record of a column without a name of the type
`timestamps`, and an unknown verb that is the word of an action has the record of that action.
Reading makes neither: it takes such a column for the marker, and such a verb for the action. So
the text of a schema or of an intent that is read loses nothing of it (`written_eq_iff_read_eq`).
-/

namespace MigrationDraft

/-- The written form of a value says which value it is. -/
theorem Json.compact_inj {v w : Json} (h : v.compact = w.compact) : v = w := by
  have hread : ∀ u : Json, read u.compact = some u := by
    intro u
    have hread := @read_compact u "" (by simp)
    rwa [String.append_empty] at hread
  have hsome : some v = some w := by
    rw [← hread v, h, hread w]
  exact Option.some.inj hsome

/-! ## Columns -/

/-- The text `true` is not written like a bare modifier. -/
theorem OptionValue.toJson_inj {v w : OptionValue} (h : v.toJson = w.toJson) : v = w := by
  cases v with
  | flag =>
      cases w with
      | flag => rfl
      | literal t => exact nomatch h
  | literal s =>
      cases w with
      | flag => exact nomatch h
      | literal t => exact congrArg literal (Json.string.inj h)

theorem Options.toJson_inj {o p : Options} (h : o.toJson = p.toJson) : o = p := by
  have hentry : ∀ e e' : String × OptionValue,
      (e.1, e.2.toJson) = (e'.1, e'.2.toJson) → e = e' := by
    intro e e' he
    obtain ⟨hkey, hvalue⟩ := Prod.mk.inj he
    exact Prod.ext hkey (OptionValue.toJson_inj hvalue)
  exact ext ((List.map_inj_right hentry).mp (Json.object.inj h))

/-- The parts of a record are those it was made of. -/
theorem columnRecord_inj {name name' type type' : String} {arguments arguments' : List String}
    {options options' : Options}
    (h : columnRecord name type arguments options = columnRecord name' type' arguments' options') :
    name = name' ∧ type = type' ∧ arguments = arguments' ∧ options = options' := by
  simp only [columnRecord, Json.object.injEq, List.cons.injEq, Prod.mk.injEq, Json.string.injEq,
    Json.array.injEq, true_and, and_true] at h
  obtain ⟨hname, htype, harguments, hoptions⟩ := h
  have hstring : ∀ a b : String, Json.string a = Json.string b → a = b := fun _ _ => Json.string.inj
  exact ⟨hname, htype, (List.map_inj_right hstring).mp harguments, Options.toJson_inj hoptions⟩

/-- The entry is not one that is written like the marker. -/
def Column.Unmistakable : Column → Prop
  | .field f => ¬(f.name = "" ∧ f.type = "timestamps")
  | .timestamps => True

theorem Column.toJson_inj {c d : Column} (hc : c.Unmistakable) (hd : d.Unmistakable)
    (h : c.toJson = d.toJson) : c = d := by
  -- a field with the marker's record would be the one that reading takes for the marker
  cases c with
  | timestamps =>
      cases d with
      | timestamps => rfl
      | field g =>
          obtain ⟨hname, htype, -⟩ := columnRecord_inj h
          exact absurd ⟨hname.symm, htype.symm⟩ hd
  | field f =>
      cases d with
      | timestamps =>
          obtain ⟨hname, htype, -⟩ := columnRecord_inj h
          exact absurd ⟨hname, htype⟩ hc
      | field g =>
          obtain ⟨fname, ftype, fargs, fopts⟩ := f
          obtain ⟨gname, gtype, gargs, gopts⟩ := g
          obtain ⟨rfl, rfl, rfl, rfl⟩ := columnRecord_inj h
          rfl

/-- A column without a name that cannot be told from the marker by its record. -/
example : (Column.field (Field.plain "" "timestamps")).toJson = Column.timestamps.toJson := rfl

/-- The records of entries in a row are those of the entries one by one. -/
theorem Schema.toJson_inj {columns columns' : Schema} (hc : ∀ c ∈ columns, c.Unmistakable)
    (hc' : ∀ c ∈ columns', c.Unmistakable) (h : columns.toJson = columns'.toJson) :
    columns = columns' := by
  have hrecords : columns.map Column.toJson = columns'.map Column.toJson := Json.array.inj h
  clear h
  induction columns generalizing columns' with
  | nil => exact (List.map_eq_nil_iff.mp hrecords.symm).symm
  | cons c columns ih =>
      obtain ⟨hhead, htail⟩ := List.forall_mem_cons.mp hc
      cases columns' with
      | nil => exact nomatch hrecords
      | cons d columns' =>
          obtain ⟨hhead', htail'⟩ := List.forall_mem_cons.mp hc'
          obtain ⟨hrecord, hrest⟩ := List.cons.inj hrecords
          rw [Column.toJson_inj hhead hhead' hrecord, ih htail htail' hrest]

/-- A column that is read is not written like the marker: it would have been read as the marker. -/
theorem Schema.unmistakable_of_mem_ofShorthand {text : String} :
    ∀ c ∈ Schema.ofShorthand text, c.Unmistakable := by
  intro c hc
  cases c with
  | timestamps => exact trivial
  | field f => exact (wellFormed_ofShorthand text f hc).not_marker

/-! ## Intents -/

/-- An intent that has a name is known from its record. -/
theorem Intent.toJson_inj {i j : Intent} (hi : i.Nameable) (hj : j.Nameable)
    (h : i.toJson = j.toJson) : i = j := by
  obtain ⟨action, table⟩ := i
  obtain ⟨action', table'⟩ := j
  simp only [toJson, Action.toJson, Json.object.injEq, List.cons.injEq, Prod.mk.injEq,
    Json.string.injEq, true_and, and_true] at h
  obtain ⟨hword, rfl⟩ := h
  have hmeans : Action.ofVerb action.text = action := hi.means
  have hmeans' : Action.ofVerb action'.text = action' := hj.means
  rw [← hmeans, ← hmeans', hword]

/-- A verb that would be unknown and the action that it means have the same word. -/
example : (Action.other "create").toJson = Action.create.toJson := rfl

/-! ## What is read -/

/-- **The text of a record loses nothing of what was read.** Two shorthand texts have schemas that
are written alike exactly if the schemas are the same: the marker and columns, bare modifiers and
values, and the order of arguments and modifiers show. Two names have intents that are written
alike exactly if the intents are the same. -/
theorem written_eq_iff_read_eq :
    (∀ text text' : String,
      (Schema.ofShorthand text).toJson.compact = (Schema.ofShorthand text').toJson.compact
        ↔ Schema.ofShorthand text = Schema.ofShorthand text')
    ∧ ∀ name name' : String,
      (Intent.ofName name).toJson.compact = (Intent.ofName name').toJson.compact
        ↔ Intent.ofName name = Intent.ofName name' := by
  constructor
  · intro text text'
    constructor
    · intro h
      exact Schema.toJson_inj Schema.unmistakable_of_mem_ofShorthand
        Schema.unmistakable_of_mem_ofShorthand (Json.compact_inj h)
    · intro h
      rw [h]
  · intro name name'
    constructor
    · intro h
      exact Intent.toJson_inj (Intent.nameable_ofName name) (Intent.nameable_ofName name')
        (Json.compact_inj h)
    · intro h
      rw [h]

end MigrationDraft
