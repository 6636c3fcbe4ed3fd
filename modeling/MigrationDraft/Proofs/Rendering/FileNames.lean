import MigrationDraft.Migration
import MigrationDraft.Proofs.Inflection.Words

set_option autoImplicit false

/-!
# File names and class names

A migration is found by the name of its file and run by the name of its class, and the second is
worked out from the first: the ending and the four parts of the time go, and the words of what
is left are run together. The class that is looked for is the one that the file has
(`classOfFile_fileName`), also for a pivot table, whose class is named from the two columns and
not from the name of its file.
-/

namespace MigrationDraft

open Text Inflection

/-- The class that is looked for in a file, none if the file has another ending. -/
def classOfFile? (file : String) : Option String :=
  (dropSuffix? ".php".toList file.toList).map fun stem =>
    pascalCase (String.ofList (['_'].intercalate ((stem.splitOn '_').drop 4)))

/-! ## The parts of a time -/

theorem underscore_ne_of_isDigit {c : Char} (h : c.isDigit = true) : '_' ≠ c := by
  rintro rfl
  exact absurd h (by decide)

theorem underscore_not_mem_fixedDigits (width n : Nat) : '_' ∉ fixedDigits width n :=
  fun h => underscore_ne_of_isDigit (isDigit_of_mem_fixedDigits h) rfl

theorem underscore_not_mem_paddedDigits (width n : Nat) : '_' ∉ paddedDigits width n :=
  fun h => underscore_ne_of_isDigit (isDigit_of_mem_paddedDigits h) rfl

namespace Timestamp

theorem underscore_not_mem_yearText (year : Int) : '_' ∉ yearText year := by
  unfold yearText
  split
  · rw [List.mem_cons, not_or]
    exact ⟨by decide, underscore_not_mem_paddedDigits 4 _⟩
  · split
    · exact underscore_not_mem_fixedDigits 4 _
    · rw [List.mem_cons, not_or]
      exact ⟨by decide, underscore_not_mem_paddedDigits 4 _⟩

/-- A time has four parts: its year, month and day, and the time of the day in one. -/
theorem splitOn_text (t : Timestamp) :
    t.text.toList.splitOn '_'
      = [yearText t.year, fixedDigits 2 t.month, fixedDigits 2 t.day,
          fixedDigits 2 t.hour ++ fixedDigits 2 t.minute ++ fixedDigits 2 t.second] := by
  have hday : '_' ∉ fixedDigits 2 t.hour ++ fixedDigits 2 t.minute ++ fixedDigits 2 t.second := by
    rw [List.mem_append, List.mem_append, not_or, not_or]
    exact ⟨⟨underscore_not_mem_fixedDigits 2 _, underscore_not_mem_fixedDigits 2 _⟩,
      underscore_not_mem_fixedDigits 2 _⟩
  have htext : t.text.toList
      = yearText t.year ++ '_' :: (fixedDigits 2 t.month ++ '_' :: (fixedDigits 2 t.day ++ '_' ::
        (fixedDigits 2 t.hour ++ fixedDigits 2 t.minute ++ fixedDigits 2 t.second))) := by
    simp [text]
  rw [htext, List.splitOn_append_cons_self_of_not_mem (underscore_not_mem_yearText t.year),
    List.splitOn_append_cons_self_of_not_mem (underscore_not_mem_fixedDigits 2 t.month),
    List.splitOn_append_cons_self_of_not_mem (underscore_not_mem_fixedDigits 2 t.day),
    List.splitOn_eq_singleton hday]

end Timestamp

/-! ## The class of a file -/

/-- Behind the time stands a name, and the class that is looked for is named after it, whatever
underscores or endings it has itself. -/
theorem classOfFile?_append (t : Timestamp) (name : String) :
    classOfFile? (t.text ++ "_" ++ name ++ ".php") = some (pascalCase name) := by
  have hstem : dropSuffix? ".php".toList (t.text ++ "_" ++ name ++ ".php").toList
      = some (t.text.toList ++ '_' :: name.toList) :=
    dropSuffix?_eq_some_iff.mpr (by simp)
  have hparts : ((t.text.toList ++ '_' :: name.toList).splitOn '_').drop 4
      = name.toList.splitOn '_' := by
    rw [List.splitOn_append_cons_self, t.splitOn_text]
    rfl
  rw [classOfFile?, hstem, Option.map_some, hparts, List.intercalate_splitOn,
    String.ofList_toList]

/-- The class of a pivot table is named after the words of its file. -/
theorem Pivot.pascalCase_create (p : Pivot) :
    pascalCase ("create_" ++ p.tableName ++ "_pivot_table") = p.className := by
  have hcreate : pascalCase "create" = "Create" := by decide +kernel
  have hpivot : pascalCase "pivot_table" = "PivotTable" := by decide +kernel
  calc pascalCase ("create_" ++ p.tableName ++ "_pivot_table")
      = pascalCase ("create" ++ "_" ++ (p.columnOne ++ "_" ++ p.columnTwo) ++ "_"
          ++ "pivot_table") := by
        rw [tableName]
        apply congrArg
        apply String.toList_inj.mp
        simp
    _ = pascalCase "create" ++ (pascalCase p.columnOne ++ pascalCase p.columnTwo)
          ++ pascalCase "pivot_table" := by
        rw [pascalCase_append_underscore, pascalCase_append_underscore,
          pascalCase_append_underscore]
    _ = p.className := by
        rw [hcreate, hpivot, className, ← String.append_assoc]

theorem Migration.classOfFile?_fileName (m : Migration) :
    classOfFile? m.fileName = some m.className :=
  classOfFile?_append m.time m.name

theorem Pivot.classOfFile?_fileName (p : Pivot) : classOfFile? p.fileName = some p.className := by
  have hfile : p.fileName
      = p.time.text ++ "_" ++ ("create_" ++ p.tableName ++ "_pivot_table") ++ ".php" := by
    apply String.toList_inj.mp
    simp [fileName]
  rw [hfile, classOfFile?_append, p.pascalCase_create]

/-- **The file has the class that its name promises**, for every migration and for the pivot
table of every two tables. -/
theorem classOfFile_fileName :
    (∀ (name : String) (time : Timestamp),
        classOfFile? (Migration.fileName ⟨name, time⟩) = some (Migration.className ⟨name, time⟩))
      ∧ ∀ (one two : String) (time : Timestamp),
        classOfFile? (Pivot.ofTables one two time).fileName
          = some (Pivot.ofTables one two time).className :=
  ⟨fun name time => Migration.classOfFile?_fileName ⟨name, time⟩,
    fun one two time => (Pivot.ofTables one two time).classOfFile?_fileName⟩

end MigrationDraft
