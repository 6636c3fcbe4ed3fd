import Mathlib.Data.List.Basic
import MigrationDraft.Proofs.Rendering.Names
import MigrationDraft.Proofs.Text.Splitting

set_option autoImplicit false

/-!
# Names that are read off the two bodies

A change of a table is undone by its downward method: what one method adds the other one drops.
That can be seen from the generated code alone, line by line. A body has one line for each
statement between the two lines of its wrapper (`Body.lines_source`), an added column is named
by the first quoted text of its line, and a dropped one by what its line puts between the
quotes of the call. Both readings give the names of the schema in order, whatever else the
columns hold, as long as no text breaks a line and no name or type has a quote of its own
(`Fragments.mirror_of_change`).
-/

namespace MigrationDraft

open Shorthand Text Template

/-! ## Reading a body -/

/-- What stands between the first two single quotes. -/
def firstQuoted (s : List Char) : List Char := ((s.splitOn '\'')[1]?).getD []

/-- The name in a line that adds a column, none if it is another kind of line. -/
def addedName? (line : List Char) : Option String :=
  (dropPrefix? "$table->".toList (trim line)).map fun call => String.ofList (firstQuoted call)

def droppedName? (line : List Char) : Option String :=
  (dropPrefix? "$table->dropColumn('".toList (trim line)).map fun rest =>
    String.ofList ((dropSuffix? "');".toList rest).getD rest)

/-- The statement on the table in a line, none if it is another kind of line. -/
def statement? (line : List Char) : Option String :=
  if startsWith "$table->".toList (trim line) then some (String.ofList (trim line)) else none

/-- What is read off the lines of a text in order. -/
def readLines (read : List Char → Option String) (text : String) : List String :=
  (lines text.toList).filterMap read

/-- The lines of the text add the columns, each by its statement, and do nothing else. -/
structure Adds (fields : List Field) (text : String) : Prop where
  names : readLines addedName? text = fields.map Field.name
  statements : readLines statement? text = fields.map fun f => (Column.field f).addStatement

/-- The lines of the text drop the columns, each by its statement, and do nothing else. -/
structure Drops (fields : List Field) (text : String) : Prop where
  names : readLines droppedName? text = fields.map Field.name
  statements : readLines statement? text = fields.map fun f => (Column.field f).dropStatement

/-- The column's statements stay on a line and name it first. -/
structure Field.ReadByLine (f : Field) : Prop where
  name_ne : f.name ≠ ""
  quote_not_mem_name : '\'' ∉ f.name.toList
  quote_not_mem_type : '\'' ∉ f.type.toList
  oneLine : f.WrittenIn (· ≠ '\n')

instance (f : Field) : Decidable f.ReadByLine :=
  decidable_of_iff
    (f.name ≠ "" ∧ '\'' ∉ f.name.toList ∧ '\'' ∉ f.type.toList ∧ f.WrittenIn (· ≠ '\n'))
    ⟨fun ⟨hne, hname, htype, honeLine⟩ => ⟨hne, hname, htype, honeLine⟩,
      fun ⟨hne, hname, htype, honeLine⟩ => ⟨hne, hname, htype, honeLine⟩⟩

/-! ## The lines of a body -/

def indent : List Char := List.replicate 12 ' '

theorem blanks_indent : Blanks indent := by decide

/-- The line of a change that opens the wrapper. Its table is filled in later. -/
def changeHead : String :=
  "Schema::table('" ++ token Slot.table ++ "', function (Blueprint $table) \x7b"

/-- The line that closes a wrapper. -/
def changeTail : String := "        \x7d);"

/-- A statement is a call on the table. -/
theorem Column.exists_toList_statement (c : Column) (d : Direction) :
    ∃ call : String, (c.statement d).toList = "$table->".toList ++ (call.toList ++ [';']) := by
  cases c with
  | timestamps =>
      cases d with
      | add => exact ⟨"timestamps()", by decide⟩
      | drop => exact ⟨"dropTimestamps()", by decide⟩
  | field f =>
      cases d with
      | add =>
          refine ⟨f.type ++ "(" ++ String.intercalate ", " f.callArguments ++ ")"
            ++ String.join (f.options.toList.map optionCall), ?_⟩
          show ("$table->" ++ f.type ++ "(" ++ String.intercalate ", " f.callArguments ++ ")"
            ++ String.join (f.options.toList.map optionCall) ++ ";").toList = _
          simp
      | drop =>
          refine ⟨"dropColumn('" ++ f.name ++ "')", ?_⟩
          show ("$table->dropColumn('" ++ f.name ++ "');").toList = _
          simp

/-- The blanks around a statement are not its own. -/
theorem Column.trim_statement (c : Column) (d : Direction) :
    trim (indent ++ (c.statement d).toList) = (c.statement d).toList := by
  obtain ⟨call, hcall⟩ := c.exists_toList_statement d
  have htrimmed : Trimmed (c.statement d).toList := by
    rw [hcall]
    constructor
    · intro a ha
      cases ha
      decide
    · intro a ha
      rw [← List.append_assoc, List.getLast?_concat] at ha
      cases ha
      decide
  rw [trim_blanks_append blanks_indent, trim_eq_self htrimmed]

/-- The source of a change is joined from its lines. -/
theorem Body.source_eq_intercalate {columns : Schema} (hcolumns : columns ≠ []) (d : Direction)
    (table : String) :
    ((wrapped "table" columns d).template table).source.toList
      = ['\n'].intercalate
          ((changeHead.toList :: columns.map fun c => indent ++ (c.statement d).toList)
            ++ [changeTail.toList]) := by
  have hsource : ((wrapped "table" columns d).template table).source
      = changeHead ++ statementSeparator ++ columns.statements d ++ ("\n" ++ changeTail) := by
    -- the wrapper's own text ends the way statements are separated
    have hhead : "', function (Blueprint $table) \x7b\n            "
        = "', function (Blueprint $table) \x7b" ++ statementSeparator := by decide
    have htail : "\n        \x7d);" = "\n" ++ changeTail := by decide
    have hcall : "Schema::table('" = "Schema::" ++ "table" ++ "('" := by decide
    unfold changeHead
    rw [source_wrapped, hhead, htail, hcall]
    simp only [String.append_assoc]
  have hseparator : statementSeparator.toList = '\n' :: indent := by decide
  have hstatements : columns.map (fun c => (c.statement d).toList) ≠ [] := by simpa using hcolumns
  calc ((wrapped "table" columns d).template table).source.toList
      = changeHead.toList ++ ('\n' :: indent)
          ++ ('\n' :: indent).intercalate (columns.map fun c => (c.statement d).toList)
          ++ (['\n'] ++ changeTail.toList) := by
        rw [hsource, Schema.statements]
        simp only [String.toList_append, String.toList_intercalate, List.map_map, hseparator]
        rfl
    _ = ('\n' :: indent).intercalate
            (changeHead.toList :: columns.map fun c => (c.statement d).toList)
          ++ (['\n'] ++ changeTail.toList) := by
        rw [List.intercalate_cons_of_ne_nil hstatements]
    _ = ['\n'].intercalate
            (changeHead.toList :: columns.map fun c => indent ++ (c.statement d).toList)
          ++ (['\n'] ++ changeTail.toList) := by
        rw [intercalate_cons_separator, List.map_map]
        rfl
    _ = ['\n'].intercalate
          ((changeHead.toList :: columns.map fun c => indent ++ (c.statement d).toList)
            ++ [changeTail.toList]) := by
        rw [intercalate_concat (List.cons_ne_nil _ _)]

/-- A body has one line for each statement, between the two of its wrapper. -/
theorem Body.lines_source {columns : Schema} (hcolumns : columns ≠ [])
    (honeLine : ∀ c ∈ columns, c.WrittenIn (· ≠ '\n')) (d : Direction) (table : String) :
    lines ((wrapped "table" columns d).template table).source.toList
      = (changeHead.toList :: columns.map fun c => indent ++ (c.statement d).toList)
        ++ [changeTail.toList] := by
  have hhead : '\n' ∉ changeHead.toList ∧ changeHead.toList.getLast? ≠ some '\r' := by decide
  have hindent : '\n' ∉ indent := by decide
  have hmarks : ∀ mark ∈ statementMarks, WrittenWith (· ≠ '\n') mark := by decide
  -- none of the lines holds a line feed or ends in a carriage return
  rw [source_eq_intercalate hcolumns]
  apply lines_intercalate
  · decide
  · intro l hl
    rcases List.mem_append.mp hl with hl | hl
    · rcases List.mem_cons.mp hl with rfl | hl
      · exact hhead.1
      · obtain ⟨c, hc, rfl⟩ := List.mem_map.mp hl
        rw [List.mem_append, not_or]
        exact ⟨hindent, fun h => writtenWith_statement hmarks (honeLine c hc) d _ h rfl⟩
    · rw [List.mem_singleton.mp hl]
      decide
  · intro l hl
    rcases List.mem_cons.mp hl with rfl | hl
    · exact hhead.2
    · -- a statement ends with a semicolon, whatever the column ends with
      obtain ⟨c, _, rfl⟩ := List.mem_map.mp hl
      obtain ⟨call, hcall⟩ := c.exists_toList_statement d
      rw [hcall, ← List.append_assoc, ← List.append_assoc, List.getLast?_concat]
      decide

/-- What is read off the lines of a body is what is read off its statements. -/
theorem Body.readLines_source {fields : List Field} (hfields : fields ≠ [])
    (honeLine : ∀ f ∈ fields, f.WrittenIn (· ≠ '\n')) {d : Direction}
    {read : List Char → Option String} {value : Field → String}
    (hhead : read changeHead.toList = none) (htail : read changeTail.toList = none)
    (hread : ∀ f ∈ fields, read (indent ++ ((Column.field f).statement d).toList) = some (value f))
    (table : String) :
    readLines read ((wrapped "table" (fields.map .field) d).template table).source
      = fields.map value := by
  have hcolumns : fields.map Column.field ≠ [] := by simpa using hfields
  have hlines : ∀ c ∈ fields.map Column.field, c.WrittenIn (· ≠ '\n') := by
    intro c hc
    obtain ⟨f, hf, rfl⟩ := List.mem_map.mp hc
    exact honeLine f hf
  rw [readLines, lines_source hcolumns hlines, List.cons_append, List.filterMap_cons_none hhead,
    List.filterMap_append, List.filterMap_cons_none htail, List.filterMap_nil, List.append_nil,
    List.map_map, List.filterMap_map]
  exact List.filterMap_eq_map_iff_forall_eq_some.mpr hread

/-! ## Reading a line -/

/-- The first two quotes of the statement that adds a column are those around its name. -/
theorem addedName?_statement {f : Field} (h : f.ReadByLine) :
    addedName? (indent ++ ((Column.field f).statement .add).toList) = some f.name := by
  obtain ⟨rest, hrest⟩ := namesColumn_addStatement h.name_ne
  have hstatement : ((Column.field f).statement .add).toList
      = "$table->".toList
        ++ (f.type.toList ++ ['('] ++ '\'' :: (f.name.toList ++ '\'' :: rest.toList)) := by
    rw [Column.statement, hrest, quoted]
    simp only [String.toList_append, List.append_assoc]
    rfl
  have hcall : '\'' ∉ f.type.toList ++ ['('] := by
    rw [List.mem_append, not_or]
    exact ⟨h.quote_not_mem_type, by decide⟩
  rw [addedName?, Column.trim_statement, hstatement, dropPrefix?_eq_some_iff.mpr rfl,
    Option.map_some, firstQuoted, List.splitOn_append_cons_self_of_not_mem hcall,
    List.splitOn_append_cons_self_of_not_mem h.quote_not_mem_name]
  show some (String.ofList f.name.toList) = some f.name
  rw [String.ofList_toList]

/-- The statement that drops a column is the name between two fixed texts. -/
theorem droppedName?_statement (f : Field) :
    droppedName? (indent ++ ((Column.field f).statement .drop).toList) = some f.name := by
  have hstatement : ((Column.field f).statement .drop).toList
      = "$table->dropColumn('".toList ++ (f.name.toList ++ "');".toList) := by
    show ("$table->dropColumn('" ++ f.name ++ "');").toList = _
    rw [String.toList_append, String.toList_append, List.append_assoc]
  rw [droppedName?, Column.trim_statement, hstatement, dropPrefix?_eq_some_iff.mpr rfl,
    Option.map_some, dropSuffix?_eq_some_iff.mpr rfl, Option.getD_some, String.ofList_toList]

theorem statement?_statement (c : Column) (d : Direction) :
    statement? (indent ++ (c.statement d).toList) = some (c.statement d) := by
  obtain ⟨call, hcall⟩ := c.exists_toList_statement d
  have hcalls : startsWith "$table->".toList (c.statement d).toList = true :=
    startsWith_iff.mpr ⟨_, hcall⟩
  rw [statement?, c.trim_statement, if_pos hcalls, String.ofList_toList]

/-! ## The two bodies of a change -/

section

variable {fields : List Field} (hfields : fields ≠ []) (h : ∀ f ∈ fields, f.ReadByLine)

include hfields h

theorem adds_source (table : String) :
    Adds fields ((Body.wrapped "table" (fields.map .field) .add).template table).source where
  names := Body.readLines_source hfields (fun f hf => (h f hf).oneLine) (by decide) (by decide)
    (fun f hf => addedName?_statement (h f hf)) table
  statements := Body.readLines_source hfields (fun f hf => (h f hf).oneLine) (by decide)
    (by decide) (fun _ _ => statement?_statement _ .add) table

theorem drops_source (table : String) :
    Drops fields ((Body.wrapped "table" (fields.map .field) .drop).template table).source where
  names := Body.readLines_source hfields (fun f hf => (h f hf).oneLine) (by decide) (by decide)
    (fun f _ => droppedName?_statement f) table
  statements := Body.readLines_source hfields (fun f hf => (h f hf).oneLine) (by decide)
    (by decide) (fun _ _ => statement?_statement _ .drop) table

end

/-- **The two bodies of a change name the same columns in the same order.** For every table and
every schema of columns whose names are there and whose statements stay on their lines, one body
adds the columns, the other drops them, and neither has a statement on anything else. What the
arguments and the modifiers hold makes no difference, quotes and whole statements included. -/
theorem Fragments.mirror_of_change {fields : List Field} (hfields : fields ≠ [])
    (h : ∀ f ∈ fields, f.ReadByLine) (table : String) :
    let columns := fields.map Column.field
    (∃ b, build Stubs.builtin columns ⟨.add, table⟩ = .ok b
        ∧ Adds fields b.up ∧ Drops fields b.down)
      ∧ ∃ b, build Stubs.builtin columns ⟨.remove, table⟩ = .ok b
        ∧ Drops fields b.up ∧ Adds fields b.down := by
  intro columns
  have hadds := adds_source hfields h table
  have hdrops := drops_source hfields h table
  exact ⟨⟨_, Body.build_of_forAction? rfl, hadds, hdrops⟩,
    ⟨_, Body.build_of_forAction? rfl, hdrops, hadds⟩⟩

/-- A foreign key with its companion, and a column with calls on the table in its argument and
its default value. -/
theorem Fragments.mirror_of_change_quoted_calls :
    let key : Field := .plain "user_id" "integer"
    let companion : Field :=
      .withOption (.withOption (.plain "user_id" "foreign") "references" (.literal "'id'")) "on"
        (.literal "'users'")
    let note : Field :=
      .withOption (.withArguments (.plain "a, (b) " "$table->string") ["'$table->'", ")"])
        "default" (.literal "'$table->dropColumn('x');'\r")
    let fields := [key, companion, note]
    let columns := fields.map Column.field
    fields ≠ [] ∧ (∀ f ∈ fields, f.ReadByLine)
      ∧ (∃ b, build Stubs.builtin columns ⟨.add, "posts"⟩ = .ok b
        ∧ Adds fields b.up ∧ Drops fields b.down)
      ∧ ∃ b, build Stubs.builtin columns ⟨.remove, "posts"⟩ = .ok b
        ∧ Drops fields b.up ∧ Adds fields b.down := by
  intro key companion note fields columns
  have hfields : fields ≠ [] := by decide
  have h : ∀ f ∈ fields, f.ReadByLine := by decide
  exact ⟨hfields, h, Fragments.mirror_of_change hfields h "posts"⟩

end MigrationDraft
