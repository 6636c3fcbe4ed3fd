import MigrationDraft.Migration
import MigrationDraft.Proofs.Rendering.MigrationFile
import MigrationDraft.Proofs.Template.Fences

set_option autoImplicit false

/-!
# What becomes of a statement in a file

A file is made by fills, and a fill does not tell the tokens of a stub from the same characters
in what the user wrote. Yet statements do not get mixed up with what surrounds them: each
stands on a line of its own, between a blank and a line break, where no token reaches over. So
each is in the file as it was but for the fills that come after it was put in
(`Migration.standInOrder_render`, `Pivot.standInOrder_render`): those of the downward body and of
the table for a migration's upward body, that of the table for its downward body, and that of
the class for a pivot table. A statement without these tokens is there unchanged.
-/

namespace MigrationDraft

open Template

/-! ## Parts on a line -/

/-- The part between a blank and a line break. -/
def onLine (p : String) : String := " " ++ p ++ "\n"

/-- The token of the name has neither a blank nor a line break in it. -/
def KeepsLines (name : String) : Prop := Fence name " " ∧ Fence name "\n"

instance (name : String) : Decidable (KeepsLines name) :=
  inferInstanceAs (Decidable (_ ∧ _))

/-- The parts stand in the text one after the other, each between a blank and a line break. -/
def StandInOrder (ps : List String) (s : String) : Prop := OccurInOrder (ps.map onLine) s

/-- What occurs in a part occurs in its place. -/
theorem OccurInOrder.splice (front : List String) {p s : String} {ps rest : List String}
    (h : OccurInOrder (front ++ p :: rest) s) (hp : OccurInOrder ps p) :
    OccurInOrder (front ++ (ps ++ rest)) s := by
  induction front generalizing s with
  | nil =>
      obtain ⟨before, after, rfl, hafter⟩ := h
      have hfront := (hp.inside before "").append hafter
      rwa [String.append_empty] at hfront
  | cons q front ih =>
      obtain ⟨before, after, rfl, hafter⟩ := h
      exact ⟨before, after, rfl, ih hafter⟩

theorem OccurInOrder.of_mem {p s : String} {ps : List String} (h : OccurInOrder ps s)
    (hp : p ∈ ps) : OccurInOrder [p] s := by
  induction ps generalizing s with
  | nil => cases hp
  | cons q ps ih =>
      obtain ⟨before, after, rfl, hafter⟩ := h
      rcases List.mem_cons.mp hp with rfl | hp
      · exact ⟨before, after, rfl, trivial⟩
      · have hrest := (ih hafter hp).inside (before ++ q) ""
        rwa [String.append_empty] at hrest

namespace StandInOrder

variable {ps : List String} {p s : String}

theorem cons (before p : String) {after : String} (h : StandInOrder ps after) :
    StandInOrder (p :: ps) (before ++ onLine p ++ after) :=
  ⟨before, after, rfl, h⟩

theorem occurInOrder (h : StandInOrder ps s) : OccurInOrder ps s := by
  induction ps generalizing s with
  | nil => exact trivial
  | cons p ps ih =>
      obtain ⟨before, after, rfl, hafter⟩ := h
      have hp : OccurInOrder [p] (before ++ onLine p) := by
        have hline := (OccurInOrder.single p).inside (before ++ " ") "\n"
        simpa [onLine, String.append_assoc] using hline
      exact hp.append (ih hafter)

theorem splice (front : List String) {rest : List String}
    (h : StandInOrder (front ++ p :: rest) s) (hp : StandInOrder ps p) :
    StandInOrder (front ++ (ps ++ rest)) s := by
  unfold StandInOrder at h ⊢
  rw [List.map_append, List.map_cons] at h
  rw [List.map_append, List.map_append]
  exact OccurInOrder.splice _ h (hp.inside " " "\n")

/-- Each part is filled by itself. -/
theorem filled (name : String) (hname : KeepsLines name)
    (value : String) (h : StandInOrder ps s) :
    StandInOrder (ps.map fun p => fill p name value) (fill s name value) := by
  induction ps generalizing s with
  | nil => exact trivial
  | cons p ps ih =>
      obtain ⟨before, after, rfl, hafter⟩ := h
      have hline : before ++ onLine p ++ after = before ++ " " ++ p ++ "\n" ++ after := by
        simp only [onLine, String.append_assoc]
      rw [hline, fill_fence hname.2, fill_fence hname.1]
      have hparts := (ih hafter).cons (fill before name value) (fill p name value)
      simpa only [List.map_cons, onLine, String.append_assoc] using hparts

/-- The tokens of other names stay. -/
theorem filled_tokens (name : String) (hname : PlainName name) (hlines : KeepsLines name)
    {slots : List String}
    (hslots : ∀ slot ∈ slots, PlainName slot ∧ slot ≠ name) (value : String)
    (h : StandInOrder (slots.map token) s) :
    StandInOrder (slots.map token) (fill s name value) := by
  have htokens : (slots.map token).map (fun p => fill p name value) = slots.map token := by
    rw [List.map_map]
    refine List.map_congr_left fun slot hslot => ?_
    exact fill_token_of_ne hname (hslots slot hslot).1 (hslots slot hslot).2 value
  exact htokens ▸ h.filled name hlines value

/-- Parts that are joined by the separator of statements stand on their lines if the whole
does. -/
theorem intercalate (ps : List String) :
    OccurInOrder (ps.map onLine) (onLine (statementSeparator.intercalate ps)) := by
  induction ps with
  | nil => exact trivial
  | cons p ps ih =>
      cases ps with
      | nil =>
          rw [String.intercalate_singleton]
          exact OccurInOrder.single (onLine p)
      | cons q ps =>
          have hsep : statementSeparator = "\n" ++ "           " ++ " " := by decide
          rw [String.intercalate_cons_cons]
          generalize statementSeparator.intercalate (q :: ps) = rest at ih
          have hline : onLine (p ++ statementSeparator ++ rest)
              = onLine p ++ ("           " ++ onLine rest ++ "") := by
            rw [hsep]
            simp only [onLine, String.append_assoc, String.append_empty]
          rw [hline]
          exact OccurInOrder.append (.single (onLine p)) (ih.inside _ _)

theorem statements {columns : Schema} {d : Direction} (h : StandInOrder [columns.statements d] s) :
    StandInOrder (columns.map fun c => c.statement d) s := by
  have hlines := intercalate (columns.map fun c => c.statement d)
  have hsplice := OccurInOrder.splice [] h hlines
  rwa [List.map_nil, List.append_nil] at hsplice

end StandInOrder

/-! ## The ends of a stub's texts -/

def EndsInBlank (s : String) : Prop := ∃ t, s = t ++ " "

def StartsWithBreak (s : String) : Prop := ∃ t, s = "\n" ++ t

theorem EndsInBlank.append (s : String) {t : String} (h : EndsInBlank t) :
    EndsInBlank (s ++ t) := by
  obtain ⟨u, rfl⟩ := h
  exact ⟨s ++ u, by rw [String.append_assoc]⟩

/-- A text written as a literal: its characters can be looked at without decoding it. -/
theorem endsInBlank_ofList {s : List Char} (h : s.getLast? = some ' ') :
    EndsInBlank (String.ofList s) := by
  obtain ⟨t, rfl⟩ := List.getLast?_eq_some_iff.mp h
  exact ⟨String.ofList t, by rw [String.ofList_append]⟩

theorem startsWithBreak_ofList {s : List Char} (h : s.head? = some '\n') :
    StartsWithBreak (String.ofList s) := by
  obtain ⟨t, rfl⟩ := List.head?_eq_some_iff.mp h
  exact ⟨String.ofList t, by rw [← List.singleton_append, String.ofList_append]⟩

/-- A text from a line break to a blank, cut after the line break. -/
theorem StartsWithBreak.exists_rest {s t : String} (hs : StartsWithBreak s) (ht : EndsInBlank t) :
    ∃ rest, EndsInBlank rest ∧ s ++ t = "\n" ++ rest := by
  obtain ⟨u, rfl⟩ := hs
  exact ⟨u ++ t, ht.append u, by rw [String.append_assoc]⟩

/-- What is put between a blank and a line break stands on its line. -/
theorem StandInOrder.single {before after : String} (hbefore : EndsInBlank before)
    (hafter : StartsWithBreak after) (p : String) : StandInOrder [p] (before ++ p ++ after) := by
  obtain ⟨before, rfl⟩ := hbefore
  obtain ⟨after, rfl⟩ := hafter
  have hline : StandInOrder [p] (before ++ onLine p ++ after) := .cons before p trivial
  simpa only [onLine, String.append_assoc] using hline

/-! ## Migrations -/

namespace Body

/-- The statements of a body stand on their lines in its source. -/
theorem standInOrder_source (b : Body) (table : String) :
    StandInOrder b.statements (b.template table).source := by
  cases b with
  | dropTable => exact trivial
  | wrapped method columns d =>
      have hhead := EndsInBlank.append ("Schema::" ++ method ++ "('" ++ token Slot.table)
        (t := "', function (Blueprint $table) \x7b\n            ")
        (endsInBlank_ofList (by decide))
      rw [source_wrapped]
      exact StandInOrder.statements (.single hhead (startsWithBreak_ofList (by decide)) _)

end Body

/-- The slots for the two bodies stand on their lines in the migration stub. -/
theorem Stubs.standInOrder_migration :
    StandInOrder ([Slot.schemaUp, Slot.schemaDown].map token) builtin.migration := by
  have hhead : EndsInBlank fileHead.source := by
    show EndsInBlank ([.text _, .slot _] ++ [.text (_ ++ _)] : Template).source
    rw [source_append, source_text]
    exact .append _ (.append _ (endsInBlank_ofList (by decide)))
  have hmiddle : ∃ between, EndsInBlank between ∧ fileMiddle.source = "\n" ++ between := by
    rw [fileMiddle, source_text]
    exact (startsWithBreak_ofList (by decide)).exists_rest (endsInBlank_ofList (by decide))
  have htail : StartsWithBreak fileTail.source := by
    rw [fileTail, source_text]
    exact startsWithBreak_ofList (by decide)
  obtain ⟨between, hbetween, hmiddle⟩ := hmiddle
  obtain ⟨before, hhead⟩ := hhead
  have hdown := StandInOrder.single hbetween htail (token Slot.schemaDown)
  have hup := hdown.cons before (token Slot.schemaUp)
  show StandInOrder _ migrationFile.source
  simpa [migrationFile, hhead, hmiddle, onLine, String.append_assoc] using hup

/-- **The file holds the two bodies**, whatever they are: each on its lines, and filled by what
comes after it was put in. -/
theorem Migration.standInOrder_bodies (m : Migration) (fragments : Fragments) (table : String) :
    StandInOrder
      [fill (fill fragments.up Slot.schemaDown fragments.down) Slot.table table,
        fill fragments.down Slot.table table]
      (m.render Stubs.builtin fragments table) := by
  have hclass := Stubs.standInOrder_migration.filled_tokens Slot.className (by decide)
    (by decide) (by decide) m.className
  have hup := hclass.filled Slot.schemaUp (by decide) fragments.up
  simp only [List.map_cons, List.map_nil] at hup
  rw [fill_token, fill_token_of_ne (by decide) (by decide) (by decide)] at hup
  have hdown := hup.filled Slot.schemaDown (by decide) fragments.down
  simp only [List.map_cons, List.map_nil] at hdown
  rw [fill_token] at hdown
  exact hdown.filled Slot.table (by decide) table

/-- The statements of both bodies are in the file in order, each on its line and filled by what
comes after it was put in. -/
theorem Migration.standInOrder_render (m : Migration) (up down : Body) (table : String) :
    let fragments : Fragments := ⟨(up.template table).source, (down.template table).source⟩
    StandInOrder
      (up.statements.map (fun s => fill (fill s Slot.schemaDown fragments.down) Slot.table table)
        ++ down.statements.map fun s => fill s Slot.table table)
      (m.render Stubs.builtin fragments table) := by
  intro fragments
  have hbodies := m.standInOrder_bodies fragments table
  have hlines : KeepsLines Slot.table := by decide
  have hup := ((up.standInOrder_source table).filled Slot.schemaDown (by decide)
    fragments.down).filled Slot.table hlines table
  have hdown := (down.standInOrder_source table).filled Slot.table hlines table
  have hfile := (hbodies.splice [] hup).splice _ hdown
  rwa [List.append_nil, List.map_map] at hfile

/-! ## Pivot tables -/

/-- The slot for the columns stands on its line in the pivot stub that has one. -/
theorem Stubs.standInOrder_pivotSchema :
    StandInOrder ([Slot.schemaUp].map token) builtin.pivotSchema := by
  show StandInOrder _ (pivotHead ++ pivotColumns ++ pivotTail : Template).source
  have hbefore : EndsInBlank (pivotHead.source ++ "            ") :=
    .append _ (endsInBlank_ofList (by decide))
  have hafter : StartsWithBreak ("\n" ++ pivotTail.source) := ⟨_, rfl⟩
  have hline := StandInOrder.single hbefore hafter (token Slot.schemaUp)
  simpa [pivotColumns, onLine, String.append_assoc] using hline

/-- **The statements of a pivot table** are in its file in order, each on its line and filled by
the class, which comes last. -/
theorem Pivot.standInOrder_render (p : Pivot) (columns : Schema) :
    StandInOrder (columns.map fun c => fill c.addStatement Slot.className p.className)
      (p.render Stubs.builtin (some columns)) := by
  have hnames : StandInOrder ([Slot.schemaUp].map token)
      (p.fillNames Stubs.builtin.pivotSchema) := by
    unfold fillNames
    -- none of the five names is that of the slot
    iterate 5
      refine StandInOrder.filled_tokens _ (by decide) (by decide) (by decide) _ ?_
    exact Stubs.standInOrder_pivotSchema
  have hcolumns := hnames.filled Slot.schemaUp (by decide) (columns.statements .add)
  simp only [List.map_cons, List.map_nil] at hcolumns
  rw [fill_token] at hcolumns
  have hstatements := (StandInOrder.statements hcolumns).filled Slot.className (by decide)
    p.className
  rwa [List.map_map] at hstatements

/-! ## What stays as it was -/

/-- Each statement that holds none of the tokens is in the file as it is. -/
def VerbatimWithout (slots statements : List String) (file : String) : Prop :=
  ∀ s ∈ statements, (∀ slot ∈ slots, ¬ HoldsToken slot s) → OccurInOrder [s] file

/-- **What the user wrote is in the file as it was, unless a later fill finds its token there.**
For every shorthand text, every name with a known verb and every two tables, whatever braces
they have: the statements are in the file in order, changed by the later fills only. -/
theorem verbatim_unless_filled_later (shorthand : String) (time : Timestamp) :
    let columns := Schema.ofShorthand shorthand
    (∀ name, (Action.ofVerb (Intent.firstWord name)).isOther = false →
      let intent := Intent.ofName name
      ∃ (up down : Body) (fragments : Fragments),
        Body.forAction? columns (Action.ofVerb (Intent.firstWord name)) = some (up, down)
          ∧ Fragments.build Stubs.builtin columns intent = .ok fragments
          ∧ let file := Migration.render ⟨name, time⟩ Stubs.builtin fragments intent.table
            StandInOrder
              (up.statements.map (fun s =>
                  fill (fill s Slot.schemaDown fragments.down) Slot.table intent.table)
                ++ down.statements.map fun s => fill s Slot.table intent.table) file
            ∧ VerbatimWithout [Slot.schemaDown, Slot.table] up.statements file
            ∧ VerbatimWithout [Slot.table] down.statements file)
      ∧ ∀ one two,
        let pivot := Pivot.ofTables one two time
        let file := pivot.render Stubs.builtin (some columns)
        StandInOrder (columns.map fun c => fill c.addStatement Slot.className pivot.className) file
          ∧ VerbatimWithout [Slot.className] (columns.map Column.addStatement) file := by
  intro columns
  constructor
  · intro name hverb intent
    obtain ⟨up, down, hbodies⟩ := Body.exists_bodies columns hverb
    have haction : intent.action = Action.ofVerb (Intent.firstWord name) :=
      Intent.action_ofName hverb
    have hfile := Migration.standInOrder_render ⟨name, time⟩ up down intent.table
    refine ⟨up, down, _, hbodies, Body.build_of_forAction? (haction ▸ hbodies), hfile, ?_, ?_⟩
    -- a fill does nothing to a statement that holds no token of its name
    · intro s hs hslots
      have h := hfile.occurInOrder.of_mem (List.mem_append_left _ (List.mem_map_of_mem hs))
      rwa [fill_eq_self (hslots _ (by simp)), fill_eq_self (hslots _ (by simp))] at h
    · intro s hs hslots
      have h := hfile.occurInOrder.of_mem (List.mem_append_right _ (List.mem_map_of_mem hs))
      rwa [fill_eq_self (hslots _ (by simp))] at h
  · intro one two pivot file
    have hfile := pivot.standInOrder_render columns
    refine ⟨hfile, fun s hs hslots => ?_⟩
    obtain ⟨c, hc, rfl⟩ := List.mem_map.mp hs
    have h := hfile.occurInOrder.of_mem (List.mem_map_of_mem hc)
    rwa [fill_eq_self (hslots _ (by simp))] at h

/-- A token that no later fill looks for: both files have the statement as it was. -/
theorem verbatim_unless_filled_later_schema_up :
    let name := "add_note_to_posts_table"
    let statement := "$table->string('note')->default('\x7b\x7bschema_up\x7d\x7d');"
    let columns := Schema.ofShorthand "note:string:default('\x7b\x7bschema_up\x7d\x7d')"
    let time : Timestamp := ⟨2024, 1, 31, 12, 5, 9⟩
    (Action.ofVerb (Intent.firstWord name)).isOther = false
      ∧ (∃ fragments, Fragments.build Stubs.builtin columns (Intent.ofName name) = .ok fragments
        ∧ OccurInOrder [statement]
          (Migration.render ⟨name, time⟩ Stubs.builtin fragments (Intent.ofName name).table))
      ∧ OccurInOrder [statement]
        ((Pivot.ofTables "tags" "posts" time).render Stubs.builtin (some columns)) := by
  intro name statement columns time
  have hverb : (Action.ofVerb (Intent.firstWord name)).isOther = false := by decide +kernel
  have hstatement : columns.map Column.addStatement = [statement] := by decide +kernel
  obtain ⟨hmigration, hpivot⟩ := verbatim_unless_filled_later
    "note:string:default('\x7b\x7bschema_up\x7d\x7d')" time
  obtain ⟨up, down, fragments, hbodies, hbuild, _, hup, _⟩ := hmigration name hverb
  have haction : Action.ofVerb (Intent.firstWord name) = .add := by decide +kernel
  have hups : up.statements = [statement] := by
    rw [haction] at hbodies
    cases hbodies
    exact hstatement
  refine ⟨hverb, ⟨fragments, hbuild, hup statement ?_ ?_⟩, ?_⟩
  · rw [hups]
    exact List.mem_singleton_self statement
  · decide +kernel
  · refine (hpivot "tags" "posts").2 statement ?_ (by decide +kernel)
    exact hstatement ▸ List.mem_singleton_self statement

/-- A text that holds a token is not in one that does not. -/
theorem not_occurInOrder_of_holdsToken (name : String) {s file : String} (hs : HoldsToken name s)
    (hfile : ¬ HoldsToken name file) : ¬ OccurInOrder [s] file := by
  rintro ⟨before, after, rfl, _⟩
  refine hfile (List.IsInfix.trans hs ⟨before.toList, after.toList, ?_⟩)
  rw [String.toList_append, String.toList_append]

/-- A default value with the token of what is filled in last: the statement is in the body of the
migration and not in its file, and it is not in the file of a pivot table. -/
theorem token_in_default_is_filled :
    let name := "add_votes_to_posts_table"
    let time : Timestamp := ⟨2024, 1, 31, 12, 5, 9⟩
    let statement := "$table->string('votes')->default('\x7b\x7btable\x7d\x7d');"
    let columns := Schema.ofShorthand "votes:string:default('\x7b\x7btable\x7d\x7d')"
    let pivotStatement := "$table->string('votes')->default('\x7b\x7bclass\x7d\x7d');"
    let pivotColumns := Schema.ofShorthand "votes:string:default('\x7b\x7bclass\x7d\x7d')"
    (columns.map Column.addStatement = [statement]
      ∧ ∃ fragments, Fragments.build Stubs.builtin columns (Intent.ofName name) = .ok fragments
        ∧ OccurInOrder [statement] fragments.up
        ∧ ¬ OccurInOrder [statement]
          (Migration.render ⟨name, time⟩ Stubs.builtin fragments (Intent.ofName name).table))
      ∧ pivotColumns.map Column.addStatement = [pivotStatement]
        ∧ ¬ OccurInOrder [pivotStatement]
          ((Pivot.ofTables "tags" "posts" time).render Stubs.builtin (some pivotColumns)) := by
  intro name time statement columns pivotStatement pivotColumns
  have hstatement : columns.map Column.addStatement = [statement] := by decide +kernel
  have haction : (Intent.ofName name).action = .add := by decide +kernel
  have htable : (Intent.ofName name).table = "posts" := by decide +kernel
  have hbodies : Body.forAction? columns (Intent.ofName name).action
      = some (.wrapped "table" columns .add, .wrapped "table" columns .drop) := by
    rw [haction]
    rfl
  have hbody : OccurInOrder (columns.map Column.addStatement) _ :=
    (Body.standInOrder_source (.wrapped "table" columns .add)
      (Intent.ofName name).table).occurInOrder
  rw [hstatement] at hbody
  refine ⟨⟨hstatement, _, Body.build_of_forAction? hbodies, hbody, ?_⟩, by decide +kernel, ?_⟩
  · refine not_occurInOrder_of_holdsToken Slot.table (by decide +kernel) ?_
    rw [htable]
    exact not_holdsToken_fill (by decide) (by decide) _
  · refine not_occurInOrder_of_holdsToken Slot.className (by decide +kernel) ?_
    exact not_holdsToken_fill (by decide +kernel) (by decide +kernel) _

end MigrationDraft
