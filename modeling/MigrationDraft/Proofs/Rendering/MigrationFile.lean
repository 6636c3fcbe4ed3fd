import MigrationDraft.Migration
import MigrationDraft.Proofs.Inflection.Words
import MigrationDraft.Proofs.Intent.Reading
import MigrationDraft.Proofs.Rendering.Statements
import MigrationDraft.Proofs.Template.Filling

set_option autoImplicit false

/-!
# The file of a migration is one substitution

The file of a migration comes from fills, one after the other, of texts that hold what the user
wrote beside slots that a later fill has to reach: the name of the table is filled last and
stands in wrappers that were themselves filled in. With the built-in stubs, a name and a
shorthand text without opening braces, the fills do what they are meant to do. The file is
the migration stub with all of its slots filled at once, by the class, and by the two bodies
with their table (`Migration.isFileOf_render`).
-/

namespace MigrationDraft

open Template

/-! ## Bodies -/

/-- What a method of a migration does. -/
inductive Body where
  /-- Statements on columns, inside a call of a method of the schema builder. -/
  | wrapped (method : String) (columns : Schema) (d : Direction)
  /-- The removal of the table. -/
  | dropTable
  deriving DecidableEq

namespace Body

/-- The bodies of the upward and the downward method for an action, none if it is not known. -/
def forAction? (columns : Schema) : Action → Option (Body × Body)
  | .create => some (.wrapped "create" columns.withImplicit .add, .dropTable)
  | .add => some (.wrapped "table" columns .add, .wrapped "table" columns .drop)
  | .remove => some (.wrapped "table" columns .drop, .wrapped "table" columns .add)
  | .other _ => none

def statements : Body → List String
  | .wrapped _ columns d => columns.map fun c => c.statement d
  | .dropTable => []

/-- The body before its table is filled in: a wrapper has a slot for it. -/
def template (table : String) : Body → Template
  | .wrapped method columns d =>
      (Stubs.wrapper method).substitute (List.lookup · [(Slot.schemaUp, columns.statements d)])
  | .dropTable => [.text (Fragments.dropTable table)]

def text (table : String) (b : Body) : String :=
  ((b.template table).substitute (List.lookup · [(Slot.table, table)])).source

/-- The text is a call of the schema builder on the table: one that drops it, or one that works
on its columns. -/
def CallsOn (table text : String) : Prop :=
  text = "Schema::dropIfExists('" ++ table ++ "');"
    ∨ ∃ method ∈ ["create", "table"], ∃ inner,
        text = "Schema::" ++ method ++ "('" ++ table
          ++ "', function (Blueprint $table) \x7b\n            " ++ inner ++ "\n        \x7d);"

end Body

/-- The file of a class is the migration stub with all of its slots filled at once. -/
structure IsFileOf (className table : String) (up down : Body) (file : String) : Prop where
  /-- The slots are filled by the class and the two bodies, whose table is filled in too. -/
  eq_substitute : file = (Stubs.migrationFile.substitute (List.lookup ·
    [(Slot.className, className), (Slot.schemaUp, up.text table),
      (Slot.schemaDown, down.text table)])).source
  /-- The statements on the columns are there in order, as they were. -/
  statements : OccurInOrder (up.statements ++ down.statements) file
  up_callsOn : Body.CallsOn table (up.text table)
  down_callsOn : Body.CallsOn table (down.text table)
  /-- No token is left, nor anything like one. -/
  no_token : ¬ ['\x7b', '\x7b'] <:+: file.toList

/-! ## The stubs -/

theorem clean_wrapper {method : String} (h : Braceless method) : Clean (Stubs.wrapper method) := by
  have hcall : inert ("Schema::" ++ method ++ "('").toList = true :=
    inert_of_not_mem (Braceless.append (.append (by decide) h) (by decide))
  exact .text hcall (.slot (by decide) (.text (inert_ofList (by decide))
    (.slot (by decide) (.text (inert_ofList (by decide)) clean_nil))))

theorem clean_fileHead : Clean Stubs.fileHead := by
  refine .text ?_ (.slot (by decide) (.text ?_ clean_nil))
  · exact inert_toList_append (inert_toList_append (inert_ofList (by decide))
      (inert_ofList (by decide))) (inert_ofList (by decide))
  · exact inert_toList_append (inert_ofList (by decide)) (inert_ofList (by decide))

theorem clean_fileMiddle : Clean Stubs.fileMiddle :=
  .text (inert_toList_append (inert_ofList (by decide)) (inert_ofList (by decide))) clean_nil

theorem clean_fileTail : Clean Stubs.fileTail := .text (inert_ofList (by decide)) clean_nil

theorem clean_migrationFile : Clean Stubs.migrationFile := by
  have hup : Clean [.slot Slot.schemaUp] := .slot (by decide) clean_nil
  have hdown : Clean [.slot Slot.schemaDown] := .slot (by decide) clean_nil
  exact .append (.append (.append (.append clean_fileHead hup) clean_fileMiddle) hdown)
    clean_fileTail

/-- The slots of the migration stub. -/
theorem slot_mem_migrationFile {slot : String} (h : .slot slot ∈ Stubs.migrationFile) :
    slot = Slot.className ∨ slot = Slot.schemaUp ∨ slot = Slot.schemaDown := by
  simp only [Stubs.migrationFile, Stubs.fileHead, Stubs.fileMiddle, Stubs.fileTail,
    List.mem_append, List.mem_cons, List.not_mem_nil, Piece.slot.injEq, reduceCtorEq, or_false,
    false_or] at h
  rcases h with (h | h) | h
  · exact Or.inl h
  · exact Or.inr (Or.inl h)
  · exact Or.inr (Or.inr h)

/-! ## What is known of a body -/

namespace Body

/-- In the body of a wrapper the statements stand between two fixed texts. -/
theorem template_wrapped (method : String) (columns : Schema) (d : Direction) (table : String) :
    template table (.wrapped method columns d)
      = [.text ("Schema::" ++ method ++ "('"), .slot Slot.table,
        .text "', function (Blueprint $table) \x7b\n            ", .text (columns.statements d),
        .text "\n        \x7d);"] := by
  have hne : Slot.table ≠ Slot.schemaUp := by decide
  simp [template, Stubs.wrapper, hne]

@[simp] theorem text_wrapped (method : String) (columns : Schema) (d : Direction) (table : String) :
    text table (.wrapped method columns d)
      = "Schema::" ++ method ++ "('" ++ table
        ++ "', function (Blueprint $table) \x7b\n            " ++ columns.statements d
        ++ "\n        \x7d);" := by
  simp [text, template_wrapped, String.append_assoc]

theorem source_wrapped (method : String) (columns : Schema) (d : Direction) (table : String) :
    ((wrapped method columns d).template table).source
      = "Schema::" ++ method ++ "('" ++ token Slot.table
        ++ "', function (Blueprint $table) \x7b\n            " ++ columns.statements d
        ++ "\n        \x7d);" := by
  simp [template_wrapped, String.append_assoc]

@[simp] theorem text_dropTable (table : String) :
    text table .dropTable = Fragments.dropTable table :=
  source_text _

/-- What the bodies of migrations have in common: the method of the schema builder is one of
two, and the columns bring in no opening brace. -/
def Sound : Body → Prop
  | .wrapped method columns _ =>
      method ∈ ["create", "table"] ∧ ∀ c ∈ columns, c.WrittenIn (· ≠ '\x7b')
  | .dropTable => True

theorem callsOn_text {b : Body} (h : b.Sound) (table : String) : CallsOn table (b.text table) := by
  cases b with
  | dropTable => exact Or.inl (text_dropTable table)
  | wrapped method columns d =>
      exact Or.inr ⟨method, h.1, columns.statements d, text_wrapped method columns d table⟩

theorem occurInOrder_text (b : Body) (table : String) :
    OccurInOrder b.statements (b.text table) := by
  cases b with
  | dropTable => exact trivial
  | wrapped method columns d =>
      rw [text_wrapped]
      exact .inside (.intercalate statementSeparator _) _ _

/-- The only slot of a body is that of its table. -/
theorem slot_mem_template {b : Body} {table slot : String} (h : .slot slot ∈ b.template table) :
    slot = Slot.table := by
  cases b with
  | dropTable => exact nomatch List.mem_singleton.mp h
  | wrapped method columns d => simpa [template_wrapped] using h

theorem clean_template {b : Body} (h : b.Sound) {table : String} (htable : Braceless table) :
    Clean (b.template table) := by
  cases b with
  | dropTable =>
      have hdrop : Braceless (Fragments.dropTable table) :=
        .append (.append (by decide) htable) (by decide)
      exact .text (inert_of_not_mem hdrop) clean_nil
  | wrapped method columns d =>
      have hmethods : ∀ method ∈ ["create", "table"], Braceless method := by decide
      have hstatements : Clean [.text (columns.statements d)] :=
        .text (inert_of_not_mem (Schema.braceless_statements h.2 d)) clean_nil
      rw [template, substitute_single]
      exact (clean_wrapper (hmethods method h.1)).only Slot.schemaUp hstatements

theorem inert_text {b : Body} (h : b.Sound) {table : String} (htable : Braceless table) :
    inert (b.text table).toList = true := by
  refine inert_source_substitute (clean_template h htable) fun slot hslot => ?_
  rw [slot_mem_template hslot]
  exact ⟨table, by simp, inert_of_not_mem htable⟩

/-- A wrapper's source filled with statements is the source of the body. -/
theorem wrap_eq (method : String) (hmethod : Braceless method) (columns : Schema)
    (d : Direction) (table : String) :
    Fragments.wrap (Stubs.wrapper method).source columns d
      = ((wrapped method columns d).template table).source :=
  fill_text (clean_wrapper hmethod) (by decide) _

/-- The built-in stubs give the sources of the bodies, whatever the columns hold. -/
theorem build_of_forAction? {columns : Schema} {intent : Intent} {up down : Body}
    (h : forAction? columns intent.action = some (up, down)) :
    Fragments.build Stubs.builtin columns intent
      = .ok ⟨(up.template intent.table).source, (down.template intent.table).source⟩ := by
  -- a wrapper's source is filled the same way whatever the statements hold
  have hcreate := wrap_eq "create" (by decide) columns.withImplicit
  have hchange := wrap_eq "table" (by decide) columns
  unfold Fragments.build
  cases haction : intent.action with
  | create =>
      rw [haction] at h
      cases h
      rw [← hcreate .add intent.table, template, source_text]
      rfl
  | add =>
      rw [haction] at h
      cases h
      rw [← hchange .add intent.table, ← hchange .drop intent.table]
      rfl
  | remove =>
      rw [haction] at h
      cases h
      rw [← hchange .add intent.table, ← hchange .drop intent.table]
      rfl
  | other verb =>
      rw [haction] at h
      cases h

/-- Every action that is known has its bodies. -/
theorem exists_bodies (columns : Schema) {action : Action} (h : action.isOther = false) :
    ∃ up down : Body, forAction? columns action = some (up, down) := by
  cases action with
  | create => exact ⟨_, _, rfl⟩
  | add => exact ⟨_, _, rfl⟩
  | remove => exact ⟨_, _, rfl⟩
  | other verb => cases h

/-- The bodies for columns without an opening brace are sound. -/
theorem sound_of_forAction? {columns : Schema} (hcolumns : ∀ c ∈ columns, c.WrittenIn (· ≠ '\x7b'))
    {action : Action} {up down : Body} (h : forAction? columns action = some (up, down)) :
    up.Sound ∧ down.Sound := by
  cases action with
  | create =>
      cases h
      exact ⟨⟨by simp, Schema.braceless_withImplicit hcolumns⟩, trivial⟩
  | add =>
      cases h
      exact ⟨⟨by simp, hcolumns⟩, ⟨by simp, hcolumns⟩⟩
  | remove =>
      cases h
      exact ⟨⟨by simp, hcolumns⟩, ⟨by simp, hcolumns⟩⟩
  | other verb => cases h

/-- Every action that is known has its bodies, and the built-in stubs give their sources. -/
theorem exists_forAction? {columns : Schema} (hcolumns : ∀ c ∈ columns, c.WrittenIn (· ≠ '\x7b'))
    {intent : Intent} (h : intent.action.isOther = false) :
    ∃ up down : Body, forAction? columns intent.action = some (up, down)
      ∧ Fragments.build Stubs.builtin columns intent
        = .ok ⟨(up.template intent.table).source, (down.template intent.table).source⟩
      ∧ up.Sound ∧ down.Sound := by
  obtain ⟨up, down, hbodies⟩ := exists_bodies columns h
  exact ⟨up, down, hbodies, build_of_forAction? hbodies, sound_of_forAction? hcolumns hbodies⟩

end Body

/-! ## The file -/

section

variable {m : Migration} {up down : Body} {table : String} (hup : up.Sound) (hdown : down.Sound)
  (hclass : Braceless m.className) (htable : Braceless table)

include hup hdown hclass htable

/-- The fills of the migration stub are one substitution. -/
theorem Migration.render_eq_substitute :
    m.render Stubs.builtin ⟨(up.template table).source, (down.template table).source⟩ table
      = (Stubs.migrationFile.substitute (List.lookup ·
        [(Slot.className, m.className), (Slot.schemaUp, up.text table),
          (Slot.schemaDown, down.text table)])).source := by
  have hclass' : Clean [.text m.className] := .text (inert_of_not_mem hclass) clean_nil
  have hup' : Clean (up.template table) := Body.clean_template hup htable
  have hdown' : Clean (down.template table) := Body.clean_template hdown htable
  -- each fill puts a template in place of a slot, and the template stays clean
  have h₁ : Clean (expand (only Slot.className [.text m.className]) Stubs.migrationFile) :=
    clean_migrationFile.only Slot.className hclass'
  have h₂ := h₁.only Slot.schemaUp hup'
  have h₃ := h₂.only Slot.schemaDown hdown'
  have hname : PlainName Slot.table := by decide
  have hfills := fill_source h₃ hname [.text table]
  rw [← fill_source h₂ (by decide), ← fill_source h₁ (by decide),
    ← fill_source clean_migrationFile (by decide), source_text, source_text] at hfills
  refine hfills.trans ?_
  rw [expand_expand (only Slot.className _), expand_expand _ (only Slot.schemaDown _),
    expand_expand, substitute_eq_expand]
  -- so every slot of the stub gets what the later fills make of its value
  refine source_expand_congr fun slot hslot => ?_
  rcases slot_mem_migrationFile hslot with rfl | rfl | rfl
  · rw [only_self]
    rfl
  · have hclosed : Piece.slot Slot.schemaDown ∉ up.template table :=
      fun hm => absurd (Body.slot_mem_template hm) (by decide)
    rw [only_of_ne (by decide), expand_slot, only_self, expand_only_of_not_mem hclosed,
      ← substitute_single]
    exact (source_text _).symm
  · rw [only_of_ne (by decide), expand_slot, only_of_ne (by decide), expand_slot, only_self,
      ← substitute_single]
    exact (source_text _).symm

theorem isFileOf_render_fragments :
    IsFileOf m.className table up down
      (m.render Stubs.builtin ⟨(up.template table).source, (down.template table).source⟩
        table) := by
  rw [Migration.render_eq_substitute hup hdown hclass htable]
  refine
    { eq_substitute := rfl
      statements := ?_
      up_callsOn := Body.callsOn_text hup table
      down_callsOn := Body.callsOn_text hdown table
      no_token := not_infix_of_inert (inert_source_substitute clean_migrationFile ?_) }
  · -- the two bodies are parts of the file, with the stub's own text around them
    generalize hvalues : (List.lookup · [(Slot.className, m.className),
      (Slot.schemaUp, up.text table), (Slot.schemaDown, down.text table)]) = values
    have hvup : values Slot.schemaUp = some (up.text table) := by rw [← hvalues]; rfl
    have hvdown : values Slot.schemaDown = some (down.text table) := by rw [← hvalues]; rfl
    have hsource : (Stubs.migrationFile.substitute values).source
        = source (substitute values Stubs.fileHead) ++ up.text table
          ++ source (substitute values Stubs.fileMiddle) ++ down.text table
          ++ source (substitute values Stubs.fileTail) := by
      simp [Stubs.migrationFile, hvup, hvdown, String.append_assoc]
    rw [hsource]
    have hbody := Body.occurInOrder_text down table
    have hfront := (Body.occurInOrder_text up table).inside
      (source (substitute values Stubs.fileHead)) (source (substitute values Stubs.fileMiddle))
    have hfile := (hfront.append hbody).inside "" (source (substitute values Stubs.fileTail))
    rwa [String.empty_append] at hfile
  · intro slot hslot
    rcases slot_mem_migrationFile hslot with rfl | rfl | rfl
    · exact ⟨m.className, rfl, inert_of_not_mem hclass⟩
    · exact ⟨up.text table, rfl, Body.inert_text hup htable⟩
    · exact ⟨down.text table, rfl, Body.inert_text hdown htable⟩

end

/-- **The file of a migration is one substitution.** For a name whose first word is a known
verb, at every time and for every shorthand text, with neither an opening brace in the name nor
one in the text: the built-in stubs give two bodies, and the rendered file is the migration stub
with the class and these bodies, in which the table is filled in, in place of its slots. -/
theorem Migration.isFileOf_render (name shorthand : String) (time : Timestamp)
    (hverb : (Action.ofVerb (Intent.firstWord name)).isOther = false)
    (hname : Braceless name) (hshorthand : Braceless shorthand) :
    let columns := Schema.ofShorthand shorthand
    let intent := Intent.ofName name
    ∃ (up down : Body) (fragments : Fragments),
      Body.forAction? columns (Action.ofVerb (Intent.firstWord name)) = some (up, down)
        ∧ Fragments.build Stubs.builtin columns intent = .ok fragments
        ∧ fragments.up = (up.template intent.table).source
        ∧ fragments.down = (down.template intent.table).source
        ∧ IsFileOf (Inflection.pascalCase name) intent.table up down
          (Migration.render ⟨name, time⟩ Stubs.builtin fragments intent.table) := by
  intro columns intent
  have haction : intent.action = Action.ofVerb (Intent.firstWord name) :=
    Intent.action_ofName hverb
  have hclass : Braceless (Inflection.pascalCase name) :=
    Inflection.brace_not_mem_pascalCase hname
  have htable : Braceless intent.table := by
    intro hm
    rcases Intent.mem_of_mem_table hm with hunderscore | hmem
    · exact absurd hunderscore (by decide)
    · exact hname hmem
  obtain ⟨up, down, hbodies, hbuild, hup, hdown⟩ :=
    Body.exists_forAction? (Schema.braceless_ofShorthand hshorthand) (haction ▸ hverb)
  exact ⟨up, down, _, haction ▸ hbodies, hbuild, rfl, rfl,
    isFileOf_render_fragments (m := ⟨name, time⟩) hup hdown hclass htable⟩

/-- A column with closing braces in its default value. -/
theorem Migration.isFileOf_render_add_votes :
    let name := "add_votes_to_posts_table"
    let shorthand := "votes:integer:default('\x7d\x7d'), :timestamps"
    let time : Timestamp := ⟨2024, 1, 31, 12, 5, 9⟩
    let columns := Schema.ofShorthand shorthand
    let intent := Intent.ofName name
    (Action.ofVerb (Intent.firstWord name)).isOther = false ∧ Braceless name ∧ Braceless shorthand
      ∧ ∃ (up down : Body) (fragments : Fragments),
        Body.forAction? columns (Action.ofVerb (Intent.firstWord name)) = some (up, down)
          ∧ Fragments.build Stubs.builtin columns intent = .ok fragments
          ∧ fragments.up = (up.template intent.table).source
          ∧ fragments.down = (down.template intent.table).source
          ∧ IsFileOf (Inflection.pascalCase name) intent.table up down
            (Migration.render ⟨name, time⟩ Stubs.builtin fragments intent.table) := by
  intro name shorthand time
  have hverb : (Action.ofVerb (Intent.firstWord name)).isOther = false := by decide +kernel
  have hname : Braceless name := by decide +kernel
  have hshorthand : Braceless shorthand := by decide +kernel
  exact ⟨hverb, hname, hshorthand,
    Migration.isFileOf_render name shorthand time hverb hname hshorthand⟩

end MigrationDraft
