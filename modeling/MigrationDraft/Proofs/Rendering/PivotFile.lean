import MigrationDraft.Proofs.Rendering.MigrationFile
import MigrationDraft.Proofs.Rendering.PivotNames
import MigrationDraft.Proofs.Template.OwnLine

set_option autoImplicit false

/-!
# The file of a pivot table with and without columns

There are two stubs for pivot tables, and which of the two is filled depends on whether the user
named columns. The files are the same but for the lines of these columns, which come right after
the primary key (`columns_follow_primaryKey`): the names of the two tables look for their tokens
before the columns are in, and the name of the class, which comes last, finds none in them.
-/

namespace MigrationDraft

open Template

namespace Stubs

/-! ## The stubs -/

/-- The statements of a pivot table above the line of its primary key. -/
def pivotKeys : Template :=
  fileHead
    ++ [.text "Schema::create('", .slot Slot.pivotTable,
      .text "', function (Blueprint $table) \x7b\n"]
    ++ pivotKey Slot.columnOne Slot.tableOne ++ pivotKey Slot.columnTwo Slot.tableTwo

def pivotPrimaryKey : Template :=
  [.text "            $table->primary(['", .slot Slot.columnOne, .text "_id', '",
    .slot Slot.columnTwo, .text "_id']);\n"]

theorem pivotHead_eq : pivotHead = pivotKeys ++ pivotPrimaryKey := rfl

theorem clean_pivotKey {column table : String} (hcolumn : PlainName column)
    (htable : PlainName table) : Clean (pivotKey column table) :=
  .text (inert_ofList (by decide)) (.slot hcolumn (.text (inert_ofList (by decide))
    (.slot hcolumn (.text (inert_ofList (by decide)) (.slot htable
      (.text (inert_ofList (by decide)) clean_nil))))))

theorem clean_pivotHead : Clean pivotHead := by
  have hcreate : Clean [.text "Schema::create('", .slot Slot.pivotTable,
      .text "', function (Blueprint $table) \x7b\n"] :=
    .text (inert_ofList (by decide)) (.slot (by decide)
      (.text (inert_ofList (by decide)) clean_nil))
  have hkeyOne : Clean (pivotKey Slot.columnOne Slot.tableOne) :=
    clean_pivotKey (by decide) (by decide)
  have hkeyTwo : Clean (pivotKey Slot.columnTwo Slot.tableTwo) :=
    clean_pivotKey (by decide) (by decide)
  have hprimary : Clean pivotPrimaryKey :=
    .text (inert_ofList (by decide)) (.slot (by decide) (.text (inert_ofList (by decide))
      (.slot (by decide) (.text (inert_ofList (by decide)) clean_nil))))
  exact .append (.append (.append (.append clean_fileHead hcreate) hkeyOne) hkeyTwo) hprimary

theorem clean_pivotTail : Clean pivotTail := by
  have hend : Clean [.text "        \x7d);"] := .text (inert_ofList (by decide)) clean_nil
  have hdrop : Clean [.text "Schema::dropIfExists('", .slot Slot.pivotTable, .text "');"] :=
    .text (inert_ofList (by decide)) (.slot (by decide)
      (.text (inert_ofList (by decide)) clean_nil))
  exact .append (.append (.append hend clean_fileMiddle) hdrop) clean_fileTail

end Stubs

namespace Pivot

/-! ## The names in the file -/

/-- What is filled into the stub of a pivot table without columns. -/
def fills (p : Pivot) : List (String × String) := p.names ++ [(Slot.className, p.className)]

/-- The text of a part of the stub, with all names in place. -/
def complete (p : Pivot) (t : Template) : String := (t.substitute (List.lookup · p.fills)).source

def primaryKey (p : Pivot) : String :=
  "            $table->primary(['" ++ p.columnOne ++ "_id', '" ++ p.columnTwo ++ "_id']);\n"

@[simp] theorem complete_nil (p : Pivot) : p.complete [] = "" := rfl

@[simp] theorem complete_append (p : Pivot) (t u : Template) :
    p.complete (t ++ u) = p.complete t ++ p.complete u := by
  simp [complete]

@[simp] theorem complete_text (p : Pivot) (s : String) (t : Template) :
    p.complete (.text s :: t) = s ++ p.complete t := by
  simp [complete]

/-- There is one value for each slot. -/
theorem nodup_fills (p : Pivot) : (p.fills.map Prod.fst).Nodup := by
  have hslots : (nameSlots ++ [Slot.className]).Nodup := by decide +kernel
  exact hslots

theorem plainName_fills (p : Pivot) : ∀ e ∈ p.fills, PlainName e.1 := by
  have hclass : PlainName Slot.className := by decide
  exact List.forall_mem_append.mpr ⟨p.plainName_names, List.forall_mem_singleton.mpr hclass⟩

theorem complete_slot {p : Pivot} {slot value : String} (h : (slot, value) ∈ p.fills)
    (t : Template) : p.complete (.slot slot :: t) = value ++ p.complete t := by
  have hvalue : p.fills.lookup slot = some value :=
    (Text.lookup_eq_some_iff_mem p.nodup_fills).mpr h
  simp [complete, hvalue]

theorem complete_pivotPrimaryKey (p : Pivot) :
    p.complete Stubs.pivotPrimaryKey = p.primaryKey := by
  have hone : (Slot.columnOne, p.columnOne) ∈ p.fills := by simp [fills, names]
  have htwo : (Slot.columnTwo, p.columnTwo) ∈ p.fills := by simp [fills, names]
  rw [Stubs.pivotPrimaryKey, complete_text, complete_slot hone, complete_text, complete_slot htwo,
    complete_text, complete_nil]
  unfold primaryKey
  rw [String.append_empty, String.append_assoc, String.append_assoc, String.append_assoc]

/-- The primary key has a line of its own. -/
theorem exists_complete_pivotKeys (p : Pivot) :
    ∃ above, p.complete Stubs.pivotKeys = above ++ "\n" := by
  have hlast : Stubs.pivotKeys
      = Stubs.pivotKeys.dropLast ++ ([.text "')->onDelete('cascade');\n"] : Template) := rfl
  generalize Stubs.pivotKeys.dropLast = t at hlast
  refine ⟨p.complete t ++ "')->onDelete('cascade');", ?_⟩
  rw [hlast, complete_append, complete_text, complete_nil, String.append_empty,
    String.append_assoc]
  rfl

/-! ## Tables without an opening brace -/

theorem braceless_tables {one two : String} (hone : Braceless one) (htwo : Braceless two)
    (time : Timestamp) : ∀ t ∈ (ofTables one two time).tables, Braceless t := by
  have hlowered : ∀ t, Braceless t → Braceless (lowered t) := by
    intro t ht
    unfold Braceless lowered
    rw [String.toList_ofList]
    exact Text.brace_not_mem_lower ht
  intro t ht
  rw [tables_ofTables, Sym2.mem_iff] at ht
  rcases ht with rfl | rfl
  · exact hlowered one hone
  · exact hlowered two htwo

/-- Then no opening brace is filled in. -/
theorem braceless_fills {p : Pivot} (h : ∀ t ∈ p.tables, Braceless t) :
    ∀ e ∈ p.fills, Braceless e.2 := by
  have hfirst : Braceless p.first := h p.first (Sym2.mem_mk_left ..)
  have hsecond : Braceless p.second := h p.second (Sym2.mem_mk_right ..)
  have hone : Braceless p.columnOne := Inflection.brace_not_mem_singularize hfirst
  have htwo : Braceless p.columnTwo := Inflection.brace_not_mem_singularize hsecond
  have htable : Braceless p.tableName := .append (.append hone (by decide)) htwo
  have hclass : Braceless p.className :=
    .append (.append (.append (by decide) (Inflection.brace_not_mem_pascalCase hone))
      (Inflection.brace_not_mem_pascalCase htwo)) (by decide)
  simp [fills, names, hfirst, hsecond, hone, htwo, htable, hclass]

/-! ## The two files -/

section

variable {p : Pivot} (h : ∀ e ∈ p.fills, Braceless e.2)

include h

theorem render_none_eq :
    p.render Stubs.builtin none = p.complete Stubs.pivotHead ++ p.complete Stubs.pivotTail := by
  calc p.render Stubs.builtin none
      = fillAll Stubs.pivotFile.source p.fills := rfl
    _ = p.complete Stubs.pivotFile :=
        fillAll_source (Stubs.clean_pivotHead.append Stubs.clean_pivotTail) p.plainName_fills
          fun e he => inert_of_not_mem (h e he)
    _ = p.complete Stubs.pivotHead ++ p.complete Stubs.pivotTail := complete_append ..

/-- The columns are put in when all names of tables are, but before the name of the class. -/
theorem render_some_eq {columns : Schema}
    (hclass : ¬ HoldsToken Slot.className (columns.statements .add)) :
    p.render Stubs.builtin (some columns)
      = p.complete Stubs.pivotHead ++ ("            " ++ columns.statements .add ++ "\n")
        ++ p.complete Stubs.pivotTail := by
  have hhead : Piece.slot Slot.schemaUp ∉ Stubs.pivotHead := by decide +kernel
  have htail : Piece.slot Slot.schemaUp ∉ Stubs.pivotTail := by decide +kernel
  have hvalues : ∀ e ∈ p.names ++ [(Slot.className, p.className)], inert e.2.toList = true :=
    fun e he => inert_of_not_mem (h e he)
  -- the line of the columns is cut off by its blanks and by its end
  have hfences : ∀ slot ∈ nameSlots ++ [Slot.schemaUp, Slot.className],
      Fence slot "            " ∧ Fence slot "\n" := by decide +kernel
  have hnames : ∀ slot ∈ nameSlots, Slot.schemaUp ≠ slot := by decide +kernel
  calc p.render Stubs.builtin (some columns)
      = fillAll (Stubs.pivotHead ++ Stubs.pivotColumns ++ Stubs.pivotTail).source
          (p.names
            ++ (Slot.schemaUp, columns.statements .add) :: [(Slot.className, p.className)]) := rfl
    _ = p.complete Stubs.pivotHead ++ ("            " ++ columns.statements .add ++ "\n")
          ++ p.complete Stubs.pivotTail :=
        fillAll_line (by decide) p.plainName_fills Stubs.clean_pivotHead Stubs.clean_pivotTail
          hhead htail hvalues (fun e he => hfences e.1 (List.mem_map_of_mem he))
          (fun e he => hnames e.1 (fst_mem_nameSlots he))
          (List.forall_mem_singleton.mpr hclass)

end

/-- **The two stubs stay in step.** For two tables without an opening brace, and columns in whose
statements the name of the class is not asked for, the file with the columns is the file without
them and one piece of text more, which comes right after the line of the primary key. It has the
statements of the columns, each on a line of its own, and nothing else. -/
theorem columns_follow_primaryKey {one two : String} (time : Timestamp) {columns : Schema}
    (hone : Braceless one) (htwo : Braceless two)
    (hclass : ¬ HoldsToken Slot.className
      (String.intercalate "\n            " (columns.map Column.addStatement))) :
    let p := ofTables one two time
    (∃ above, p.complete Stubs.pivotKeys = above ++ "\n")
      ∧ p.render Stubs.builtin none
        = p.complete Stubs.pivotKeys ++ p.primaryKey ++ p.complete Stubs.pivotTail
      ∧ p.render Stubs.builtin (some columns)
        = p.complete Stubs.pivotKeys ++ p.primaryKey
          ++ ("            "
            ++ String.intercalate "\n            " (columns.map Column.addStatement) ++ "\n")
          ++ p.complete Stubs.pivotTail := by
  intro p
  have hfills : ∀ e ∈ p.fills, Braceless e.2 :=
    braceless_fills (braceless_tables hone htwo time)
  have hhead : p.complete Stubs.pivotHead = p.complete Stubs.pivotKeys ++ p.primaryKey := by
    rw [Stubs.pivotHead_eq, complete_append, complete_pivotPrimaryKey]
  refine ⟨p.exists_complete_pivotKeys, ?_, ?_⟩
  · rw [render_none_eq hfills, hhead]
  · rw [render_some_eq hfills hclass, hhead]
    rfl

/-- Capital letters in the name of a table, and a token and a line break in a column. -/
theorem columns_follow_primaryKey_token_and_line_break :
    let time : Timestamp := ⟨2024, 1, 31, 12, 5, 9⟩
    let columns := Schema.ofShorthand "note:string:default('\x7b\x7btable\x7d\x7d\n'), rank:integer"
    let lines := String.intercalate "\n            " (columns.map Column.addStatement)
    let p := ofTables "Tags" "posts" time
    Braceless "Tags" ∧ Braceless "posts" ∧ ¬ HoldsToken Slot.className lines
      ∧ lines = "$table->string('note')->default('\x7b\x7btable\x7d\x7d\n');\n            "
        ++ "$table->integer('rank');"
      ∧ (∃ above, p.complete Stubs.pivotKeys = above ++ "\n")
      ∧ p.render Stubs.builtin none
        = p.complete Stubs.pivotKeys ++ p.primaryKey ++ p.complete Stubs.pivotTail
      ∧ p.render Stubs.builtin (some columns)
        = p.complete Stubs.pivotKeys ++ p.primaryKey ++ ("            " ++ lines ++ "\n")
          ++ p.complete Stubs.pivotTail := by
  intro time columns lines p
  have hone : Braceless "Tags" := by decide +kernel
  have htwo : Braceless "posts" := by decide +kernel
  have hclass : ¬ HoldsToken Slot.className lines := by decide +kernel
  have hlines : lines = "$table->string('note')->default('\x7b\x7btable\x7d\x7d\n');\n            "
      ++ "$table->integer('rank');" := by decide +kernel
  exact ⟨hone, htwo, hclass, hlines, columns_follow_primaryKey time hone htwo hclass⟩

end Pivot

end MigrationDraft
